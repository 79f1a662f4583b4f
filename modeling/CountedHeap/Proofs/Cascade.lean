/-
# What a release brings down

A release is worked off from a list, and the objects that die add what they owned to
it. Which objects die does not depend on the order of the work: an object dies once
as many references to it have been given back as it has, by the caller or by objects
that die too, so the dead are the least set that is closed under this rule
(`Heap.Fells.least`). The others lose the references given back to them, except that
an immortal object keeps its last one.

The blocks of the dead are parked while their classes have room and are given back
otherwise. Which of them are parked depends on the order of the work, but how many of
each size does not (`Heap.Clears`).

Both hold in any heap, with whatever references.

Key definitions: `Heap.returned`, `Heap.Doomed`, `Heap.Fells`, `Heap.Clears`.
Key theorems: `Heap.releaseAll_fells`, `Heap.Fells.unique`, `Heap.Clears.unique`.
-/
import Mathlib.Algebra.Order.BigOperators.Group.Finset
import CountedHeap.Proofs.Books

namespace CountedHeap

variable {κ : Role → Type}

/-- An object that has lost `n` references and is still there; an immortal one keeps its last. -/
def Object.less (o : Object) (n : Nat) : Object :=
  { o with refcount := max (if o.immortal then 1 else 0) (o.refcount - n) }

namespace Object

variable {o : Object} {n : Nat}

theorem less_zero (counted : 1 ≤ o.refcount) : o.less 0 = o := by
  have hc : max (if o.immortal then 1 else 0) (o.refcount - 0) = o.refcount := by
    split <;> omega
  unfold less
  rw [hc]

/-- The last reference of an immortal object stays. -/
theorem less_succ (immortal : (o.less n).immortal = true) (last : (o.less n).refcount = 1) :
    o.less (n + 1) = o.less n := by
  have him : o.immortal = true := immortal
  simp only [less, him, if_true] at last ⊢
  congr 1
  omega

theorem less_pred (several : 1 < (o.less n).refcount) :
    { o.less n with refcount := (o.less n).refcount - 1 } = o.less (n + 1) := by
  have hc : max (if o.immortal then 1 else 0) (o.refcount - n) - 1 =
      max (if o.immortal then 1 else 0) (o.refcount - (n + 1)) := by
    simp only [less] at several
    split at several <;> split <;> omega
  simp only [less]
  rw [hc]

theorem lt_of_less (mortal : o.immortal = false) (several : 1 < (o.less n).refcount) : n + 1 < o.refcount := by
  have hc : (o.less n).refcount = o.refcount - n := by simp [less, mortal]
  omega

/-- An object that is down to one reference, and not immortal, dies of the next. -/
theorem mortal_of_less (last : (o.less n).refcount ≤ 1) (mortal : ¬ ((o.less n).immortal ∧ (o.less n).refcount = 1)) :
    o.immortal = false ∧ o.refcount ≤ n + 1 := by
  cases him : o.immortal with
  | true =>
    have hc : 1 ≤ (o.less n).refcount := by simp [less, him]
    exact absurd ⟨him, Nat.le_antisymm last hc⟩ mortal
  | false =>
    have hc : (o.less n).refcount = o.refcount - n := by simp [less, him]
    exact ⟨rfl, by omega⟩

end Object

namespace Heap

/-! ### The objects that die -/

/-- How often `a` is given back if `refs` are, and with the objects `dead` what they own. -/
def returned (h : Heap κ) (refs : Multiset Ref) (dead : Finset Ref) (a : Ref) : Nat :=
  refs.count a + ∑ r ∈ dead, Object.mentions? a (h.object? r)

/-- An object that dies of `n` references given back. -/
def Doomed (h : Heap κ) (a : Ref) (n : Nat) : Prop :=
  1 ≤ n ∧ ∃ o, h.object? a = some o ∧ o.immortal = false ∧ o.refcount ≤ n

/-- From `h` to `g`, references have been given back: of `refs` and of what the objects
`dead` owned, all but those in `left`. -/
structure Fells (h : Heap κ) (refs : Multiset Ref) (dead : Finset Ref) (left : Multiset Ref) (g : Heap κ) : Prop where
  left_le : ∀ a, left.count a ≤ h.returned refs dead a
  objects : ∀ a, g.object? a =
    if a ∈ dead then Option.none else (h.object? a).map (·.less (h.returned refs dead a - left.count a))
  mem_dead : ∀ a, a ∈ dead ↔ h.Doomed a (h.returned refs dead a - left.count a)
  least : ∀ dead' : Finset Ref, (∀ a, h.Doomed a (h.returned refs dead' a) → a ∈ dead') → dead ⊆ dead'

variable {h g : Heap κ} {refs left : Multiset Ref} {dead : Finset Ref} {r a : Ref} {o : Object}

theorem Doomed.mono {n m : Nat} (d : h.Doomed a n) (le : n ≤ m) : h.Doomed a m := by
  obtain ⟨pos, o, live, mortal, hc⟩ := d
  exact ⟨Nat.le_trans pos le, o, live, mortal, Nat.le_trans hc le⟩

theorem returned_mono {dead' : Finset Ref} (sub : dead ⊆ dead') (a : Ref) :
    h.returned refs dead a ≤ h.returned refs dead' a :=
  Nat.add_le_add_left (Finset.sum_le_sum_of_subset sub) _

/-- One more dead object returns what it owned. -/
theorem returned_insert (new : r ∉ dead) (live : h.object? r = some o) (a : Ref) :
    h.returned refs (insert r dead) a = h.returned refs dead a + o.payload.children.count a := by
  unfold returned
  rw [Finset.sum_insert new, live]
  show _ + (o.payload.children.count a + _) = _
  omega

/-- The slot of a buried object holds no object, and the others hold what they held. -/
theorem object?_bury (live : g.object? r = some o) (a : Ref) :
    (g.bury r o).object? a = if a = r then Option.none else g.object? a := by
  have hs := slot_of_object? live
  have hw : ∃ free : Slot, free.object? = Option.none ∧ g.store.Writes (g.bury r o).store r free := by
    rcases bury_cases g r o with ⟨c, -, -, he⟩ | he <;> rw [he]
    · exact ⟨_, rfl, Store.writes_put hs _⟩
    · exact ⟨_, rfl, Store.writes_put hs _⟩
  obtain ⟨free, hfree, w⟩ := hw
  by_cases ha : a = r
  · rw [if_pos ha, ha]
    exact w.object?_self.trans hfree
  · rw [if_neg ha]
    exact w.object?_other ha

namespace Fells

/-- Nothing has been given back yet. -/
theorem refl (counted : ∀ a o, h.object? a = some o → 1 ≤ o.refcount) (refs : Multiset Ref) :
    h.Fells refs ∅ refs h := by
  have hn : ∀ a, h.returned refs ∅ a - refs.count a = 0 := fun a => by simp [returned]
  refine ⟨fun a => Nat.le_add_right _ _, fun a => ?_, fun a => ?_, fun dead' _ => Finset.empty_subset dead'⟩
  · rw [hn, if_neg (Finset.notMem_empty a)]
    cases live : h.object? a with
    | none => rfl
    | some o => rw [Option.map_some, Object.less_zero (counted a o live)]
  · rw [hn]
    exact ⟨fun ha => absurd ha (Finset.notMem_empty a), fun d => absurd d.1 (Nat.not_succ_le_zero 0)⟩

/-- What is in the slot of a reference that is still to be given back. -/
theorem object?_eq (f : h.Fells refs dead left g) (live : g.object? a = some o) :
    a ∉ dead ∧ ∃ old, h.object? a = some old ∧ o = old.less (h.returned refs dead a - left.count a) := by
  have ho := f.objects a
  rw [live] at ho
  by_cases ha : a ∈ dead
  · rw [if_pos ha] at ho
    cases ho
  · rw [if_neg ha] at ho
    obtain ⟨old, hold, he⟩ := Option.map_eq_some_iff.mp ho.symm
    exact ⟨ha, old, hold, he.symm⟩

/-- One reference more has been dealt with. -/
theorem lost_self (f : h.Fells refs dead (r ::ₘ left) g) :
    h.returned refs dead r - left.count r = h.returned refs dead r - (r ::ₘ left).count r + 1 := by
  have hle := f.left_le r
  rw [Multiset.count_cons_self] at hle ⊢
  omega

theorem lost_other (ha : a ≠ r) :
    h.returned refs dead a - (r ::ₘ left).count a = h.returned refs dead a - left.count a := by
  rw [Multiset.count_cons_of_ne ha]

/-- What a dead object owned is returned and is still to be given back, so nothing else has
been dealt with. -/
theorem lost_insert (new : r ∉ dead) (live : h.object? r = some o) (a : Ref) :
    h.returned refs (insert r dead) a - (o.payload.children + left : Multiset Ref).count a =
      h.returned refs dead a - left.count a := by
  rw [returned_insert new live, Multiset.count_add, Multiset.coe_count]
  omega

/-- A reference that cannot be given back leaves all as it is. -/
theorem refuse (f : h.Fells refs dead (r ::ₘ left) g)
    (refused : ∀ o, g.object? r = some o → o.immortal = true ∧ o.refcount = 1) : h.Fells refs dead left g := by
  have hself := f.lost_self
  have hold : ∀ {old}, r ∉ dead → h.object? r = some old →
      g.object? r = some (old.less (h.returned refs dead r - (r ::ₘ left).count r)) := by
    intro old hr live
    rw [f.objects r, if_neg hr, live]
    rfl
  refine ⟨fun a => ?_, fun a => ?_, fun a => ?_, f.least⟩
  · exact Nat.le_trans (Multiset.count_le_count_cons a r left) (f.left_le a)
  · by_cases ha : a = r
    · subst ha
      rw [f.objects a, hself]
      by_cases hd : a ∈ dead
      · rw [if_pos hd, if_pos hd]
      · rw [if_neg hd, if_neg hd]
        cases live : h.object? a with
        | none => rfl
        | some old =>
          obtain ⟨him, hone⟩ := refused _ (hold hd live)
          rw [Option.map_some, Option.map_some, Object.less_succ him hone]
    · rw [f.objects a, lost_other ha]
  · by_cases ha : a = r
    · subst ha
      rw [f.mem_dead a, hself]
      refine ⟨fun d => d.mono (Nat.le_succ _), fun d => ?_⟩
      by_contra hd
      obtain ⟨-, old, live, mortal, -⟩ := d
      obtain ⟨him, -⟩ := refused _ (hold (fun ha => hd ((f.mem_dead a).mp ha)) live)
      rw [show (Object.less old _).immortal = old.immortal from rfl, mortal] at him
      cases him
    · rw [f.mem_dead a, lost_other ha]

/-- One of several references is given back. -/
theorem keep (f : h.Fells refs dead (r ::ₘ left) g) (live : g.object? r = some o) (several : 1 < o.refcount) :
    h.Fells refs dead left (g.decrement r o) := by
  have hself := f.lost_self
  obtain ⟨hr, old, hold, rfl⟩ := f.object?_eq live
  have w := Store.writes_put (slot_of_object? live)
    (.live { old.less (h.returned refs dead r - (r ::ₘ left).count r) with
      refcount := (old.less (h.returned refs dead r - (r ::ₘ left).count r)).refcount - 1 })
  refine ⟨fun a => ?_, fun a => ?_, fun a => ?_, f.least⟩
  · exact Nat.le_trans (Multiset.count_le_count_cons a r left) (f.left_le a)
  · by_cases ha : a = r
    · subst ha
      rw [if_neg hr, hold, hself, Option.map_some, ← Object.less_pred several]
      exact w.object?_self
    · rw [← lost_other ha, ← f.objects a]
      exact w.object?_other ha
  · by_cases ha : a = r
    · subst ha
      rw [hself]
      refine ⟨fun hd => absurd hd hr, fun d => ?_⟩
      obtain ⟨-, o, live', mortal, hle⟩ := d
      rw [hold] at live'
      cases live'
      have := Object.lt_of_less mortal several
      omega
    · rw [f.mem_dead a, lost_other ha]

/-- An object dies of its last reference, and what it owned is to be given back. -/
theorem die (f : h.Fells refs dead (r ::ₘ left) g) (live : g.object? r = some o) (last : o.refcount ≤ 1)
    (mortal : ¬ (o.immortal ∧ o.refcount = 1)) :
    h.Fells refs (insert r dead) (o.payload.children + left) (g.bury r o) := by
  have hself := f.lost_self
  obtain ⟨hr, old, hold, he⟩ := f.object?_eq live
  have hp : o.payload = old.payload := by rw [he]; rfl
  rw [he] at last mortal
  obtain ⟨hm, hc⟩ := Object.mortal_of_less last mortal
  have hdoomed : h.Doomed r (h.returned refs dead r - left.count r) := by
    rw [hself]
    exact ⟨Nat.succ_le_succ (Nat.zero_le _), old, hold, hm, hc⟩
  have hlost : ∀ a, h.returned refs (insert r dead) a - (o.payload.children + left : Multiset Ref).count a =
      h.returned refs dead a - left.count a := fun a => hp ▸ lost_insert hr hold a
  refine ⟨fun a => ?_, fun a => ?_, fun a => ?_, fun dead' closed => ?_⟩
  · have hle := Nat.le_trans (Multiset.count_le_count_cons a r left) (f.left_le a)
    rw [returned_insert hr hold, Multiset.count_add, Multiset.coe_count, hp]
    omega
  · rw [hlost, object?_bury live]
    by_cases ha : a = r
    · rw [if_pos ha, if_pos (ha ▸ Finset.mem_insert_self r dead)]
    · have hmem : a ∈ insert r dead ↔ a ∈ dead := by rw [Finset.mem_insert, or_iff_right ha]
      simp only [if_neg ha, f.objects a, lost_other ha, hmem]
  · rw [hlost]
    by_cases ha : a = r
    · subst ha
      exact ⟨fun _ => hdoomed, fun _ => Finset.mem_insert_self a dead⟩
    · rw [Finset.mem_insert, or_iff_right ha, f.mem_dead a, lost_other ha]
  · have sub := f.least dead' closed
    have hle : h.returned refs dead r ≤ h.returned refs dead' r := returned_mono sub r
    exact Finset.insert_subset (closed r (hdoomed.mono (by omega))) sub

/-- **The order of the work does not matter**: the dead are determined by what is given
back, and so is what becomes of all objects. -/
theorem unique {dead' : Finset Ref} {g' : Heap κ} (f : h.Fells refs dead 0 g) (f' : h.Fells refs dead' 0 g') :
    dead' = dead ∧ ∀ a, g'.object? a = g.object? a := by
  have closed : ∀ {dead : Finset Ref} {g : Heap κ}, h.Fells refs dead 0 g →
      ∀ a, h.Doomed a (h.returned refs dead a) → a ∈ dead := by
    intro dead g f a d
    refine (f.mem_dead a).mpr ?_
    rwa [Multiset.count_zero, Nat.sub_zero]
  have he : dead' = dead := Finset.Subset.antisymm (f'.least dead (closed f)) (f.least dead' (closed f'))
  subst he
  exact ⟨rfl, fun a => (f'.objects a).trans (f.objects a).symm⟩

end Fells

end Heap

/-! ### The blocks of the dead -/

/-- How many of `n` more blocks a class of `length` blocks takes. -/
def Store.takes (s : Store) (length n : Nat) : Nat := s.classLimit.elim n fun limit => min n (limit - length)

/-- A class takes one block more while it has room. -/
theorem Store.takes_succ (s : Store) (length n : Nat) :
    s.takes length (n + 1) =
      s.takes length n + if s.classLimit.all (length + s.takes length n < ·) then 1 else 0 := by
  unfold takes
  cases s.classLimit with
  | none => rfl
  | some limit =>
    by_cases hlt : length + min n (limit - length) < limit
    · simp only [Option.elim_some, Option.all_some, hlt, decide_true, if_true]
      omega
    · simp only [Option.elim_some, Option.all_some, hlt, decide_false, Bool.false_eq_true, if_false]
      omega

/-- A parked block makes its class longer by one, and no other. -/
theorem Store.sizeClass?_park {s : Store} {c : SizeClass} (found : s.sizeClass? c.size = some c) (r : Ref)
    (size : Nat) :
    ((s.park r c).sizeClass? size).map SizeClass.length =
      (s.sizeClass? size).map fun c' => c'.length + if size = c.size then 1 else 0 := by
  have hfind : (s.park r c).sizeClass? size =
      (s.sizeClass? size).map fun c' => if c'.size = c.size then ⟨c.size, some r, c.length + 1⟩ else c' := by
    unfold sizeClass? park SizeClass.update
    rw [List.find?_map]
    congr 2
    funext c'
    by_cases hc : c'.size = c.size <;> simp [hc]
  rw [hfind]
  cases hs : s.sizeClass? size with
  | none => rfl
  | some c' =>
    have hsize : c'.size = size := (sizeClass?_mem hs).2
    by_cases hc : size = c.size
    · subst hc
      rw [found] at hs
      cases hs
      simp
    · simp [hsize, hc]

theorem Store.parkedOf_eq (s : Store) (size : Nat) :
    s.parkedOf size = ((s.sizeClass? size).map SizeClass.length).getD 0 := by
  unfold parkedOf
  cases s.sizeClass? size <;> rfl

/-- The order in which blocks are given back does not matter to the books. -/
theorem Ledger.free_comm (l : Ledger) (m n : Nat) : (l.free m).free n = (l.free n).free m := by
  unfold free BlockCounts.free Tracker.free
  cases l.tracker <;> simp [Nat.sub_right_comm]

namespace Heap

/-- The number of objects among `dead` of which `p` holds. -/
def tally (h : Heap κ) (p : Object → Bool) (dead : Finset Ref) : Nat :=
  ∑ a ∈ dead, if (h.object? a).any p then 1 else 0

/-- From `h` to `g`, the blocks of the objects `dead` have been parked or given back. -/
structure Clears (h : Heap κ) (dead : Finset Ref) (g : Heap κ) : Prop where
  types : g.types = h.types
  interned : g.interned = h.interned
  depth : g.depth = h.depth
  slots : g.store.slots.size = h.store.slots.size
  limit : g.store.classLimit = h.store.classLimit
  /-- A class has taken as many blocks of the dead as it has room for. -/
  parked : ∀ size, (g.store.sizeClass? size).map SizeClass.length = (h.store.sizeClass? size).map fun c =>
    c.length + h.store.takes c.length (h.tally (fun o => h.types.parks o.type && o.size == size) dead)
  /-- The other blocks are off the books, and their slots are vacant. -/
  freed : ∃ sizes : List Nat, g.ledger = sizes.foldl (fun l n => l.free n) h.ledger ∧
    g.store.vacant.length = h.store.vacant.length + sizes.length ∧
    ∀ size, sizes.count size + g.store.parkedOf size = h.tally (·.size == size) dead + h.store.parkedOf size

variable {h g : Heap κ} {dead : Finset Ref} {r : Ref} {o : Object}

theorem tally_insert (new : r ∉ dead) (live : h.object? r = some o) (p : Object → Bool) :
    h.tally p (insert r dead) = h.tally p dead + if p o then 1 else 0 := by
  unfold tally
  rw [Finset.sum_insert new, live, Option.any_some]
  omega

/-- A block is parked in the class of its size, if its type and the class allow it. -/
theorem parkingFor?_some {c : SizeClass} (hp : h.parkingFor? o = some c) :
    h.types.parks o.type = true ∧ o.size = c.size ∧ h.store.sizeClass? c.size = some c ∧
      h.store.classLimit.all (c.length < ·) = true := by
  unfold parkingFor? at hp
  split at hp
  · rename_i hparks
    obtain ⟨hs, hroom⟩ := Option.filter_eq_some_iff.mp hp
    obtain ⟨-, hsize⟩ := Store.sizeClass?_mem hs
    exact ⟨hparks, hsize.symm, hsize ▸ hs, hroom⟩
  · cases hp

/-- A block that may be parked and is not finds its class full. -/
theorem parkingFor?_none {c : SizeClass} (hp : h.parkingFor? o = Option.none) (parks : h.types.parks o.type = true)
    (found : h.store.sizeClass? o.size = some c) : h.store.classLimit.all (c.length < ·) = false := by
  unfold parkingFor? Store.roomFor? at hp
  rw [if_pos parks, found] at hp
  simpa [Option.filter] using hp

theorem bury_parked {c : SizeClass} (hp : h.parkingFor? o = some c) (r : Ref) :
    h.bury r o = { h with store := h.store.park r c }.emit (.park r o.size) := by
  have hp' : (h.setSlot r .vacant).parkingFor? o = some c := hp
  have hs : (h.store.put r .vacant).park r c = h.store.park r c := by
    unfold Store.park Store.put
    rw [Array.setIfInBounds_setIfInBounds]
  unfold bury freeBlock
  rw [hp', ← hs]
  rfl

theorem bury_freed (hp : h.parkingFor? o = Option.none) (r : Ref) :
    h.bury r o =
      { h with store := (h.store.put r .vacant).vacate r, ledger := h.ledger.free o.size }.emit (.free r o.size) := by
  have hp' : (h.setSlot r .vacant).parkingFor? o = Option.none := hp
  unfold bury freeBlock
  rw [hp']
  rfl

namespace Clears

theorem refl (h : Heap κ) : h.Clears ∅ h := by
  refine ⟨rfl, rfl, rfl, rfl, rfl, fun size => ?_, [], rfl, rfl, fun size => rfl⟩
  have htakes : ∀ length, h.store.takes length 0 = 0 := by
    intro length
    unfold Store.takes
    cases h.store.classLimit <;> simp
  show _ = (h.store.sizeClass? size).map fun c => c.length + h.store.takes c.length 0
  simp only [htakes, Nat.add_zero]

/-- No block is touched if a slot is written in place. -/
theorem recount (c : h.Clears dead g) (r : Ref) (slot : Slot) : h.Clears dead (g.setSlot r slot) :=
  ⟨c.types, c.interned, c.depth, (Array.size_setIfInBounds ..).trans c.slots, c.limit, c.parked, c.freed⟩

/-- The block of one more dead object is parked. -/
theorem park (c : h.Clears dead g) (new : r ∉ dead) {old : Object} (live : h.object? r = some old)
    (htype : o.type = old.type) (hsize : o.size = old.size) {k : SizeClass} (hp : g.parkingFor? o = some k) :
    h.Clears (insert r dead) (g.bury r o) := by
  obtain ⟨sizes, hledger, hvacant, hcount⟩ := c.freed
  obtain ⟨parks, hk, found, hroom⟩ := parkingFor?_some hp
  have hparks : h.types.parks old.type = true := by rw [← parks, c.types, htype]
  have hpark := Store.sizeClass?_park found r
  rw [bury_parked hp]
  refine ⟨c.types, c.interned, c.depth, (Array.size_setIfInBounds ..).trans c.slots, c.limit, fun size => ?_,
    sizes, hledger, hvacant, fun size => ?_⟩
  · show ((g.store.park r k).sizeClass? size).map _ = _
    rw [hpark, tally_insert new live, hparks, ← hsize, hk]
    by_cases hs : size = k.size
    · subst hs
      have hc := c.parked k.size
      rw [found] at hc ⊢
      obtain ⟨first, hfirst, hlen⟩ := Option.map_eq_some_iff.mp hc.symm
      rw [c.limit, ← hlen] at hroom
      rw [hfirst]
      simp [Store.takes_succ, hroom, ← hlen, Nat.add_assoc]
    · simpa [hs, Ne.symm hs] using c.parked size
  · have hc := hcount size
    show sizes.count size + (g.store.park r k).parkedOf size = _
    rw [Store.parkedOf_eq] at hc ⊢
    rw [hpark, tally_insert new live, ← hsize, hk]
    by_cases hs : size = k.size
    · subst hs
      rw [found] at hc ⊢
      simp at hc ⊢
      omega
    · simpa [hs, Ne.symm hs] using hc

/-- A class that does not take the block of one more dead object takes no more of them. -/
theorem full (c : h.Clears dead g) {old : Object} (htype : o.type = old.type) (hsize : o.size = old.size)
    (hp : g.parkingFor? o = Option.none) {size : Nat} {first : SizeClass}
    (found : h.store.sizeClass? size = some first) :
    h.store.takes first.length (h.tally (fun o => h.types.parks o.type && o.size == size) dead +
        if h.types.parks old.type && old.size == size then 1 else 0) =
      h.store.takes first.length (h.tally (fun o => h.types.parks o.type && o.size == size) dead) := by
  by_cases hs : (h.types.parks old.type && old.size == size) = true
  · rw [if_pos hs]
    obtain ⟨parks, hs⟩ := Bool.and_eq_true_iff.mp hs
    rw [beq_iff_eq, ← hsize] at hs
    subst hs
    have hc := c.parked o.size
    rw [found] at hc
    obtain ⟨k, hk, hlen⟩ := Option.map_eq_some_iff.mp hc
    have hfull := parkingFor?_none hp (by rw [c.types, htype]; exact parks) hk
    rw [c.limit, hlen] at hfull
    simp [Store.takes_succ, hfull]
  · rw [if_neg hs, Nat.add_zero]

/-- The block of one more dead object is given back. -/
theorem free (c : h.Clears dead g) (new : r ∉ dead) {old : Object} (live : h.object? r = some old)
    (htype : o.type = old.type) (hsize : o.size = old.size) (hp : g.parkingFor? o = Option.none) :
    h.Clears (insert r dead) (g.bury r o) := by
  obtain ⟨sizes, hledger, hvacant, hcount⟩ := c.freed
  rw [bury_freed hp]
  refine ⟨c.types, c.interned, c.depth, (Array.size_setIfInBounds ..).trans c.slots, c.limit, fun size => ?_,
    sizes ++ [o.size], ?_, ?_, fun size => ?_⟩
  · show (g.store.sizeClass? size).map _ = _
    rw [tally_insert new live, c.parked size]
    cases found : h.store.sizeClass? size with
    | none => rfl
    | some first => exact congrArg (fun n => some (first.length + n)) (c.full htype hsize hp found).symm
  · rw [List.foldl_append, ← hledger]
    rfl
  · show (r :: g.store.vacant).length = _
    simp only [List.length_cons, List.length_append, List.length_nil, hvacant]
    omega
  · have hc := hcount size
    show (sizes ++ [o.size]).count size + g.store.parkedOf size = _
    rw [tally_insert new live, ← hsize, List.count_append, List.count_singleton]
    omega

/-- The block of one more dead object. -/
theorem bury (c : h.Clears dead g) (new : r ∉ dead) {old : Object} (live : h.object? r = some old)
    (htype : o.type = old.type) (hsize : o.size = old.size) : h.Clears (insert r dead) (g.bury r o) := by
  cases hp : g.parkingFor? o with
  | some k => exact c.park new live htype hsize hp
  | none => exact c.free new live htype hsize hp

/-- **How many blocks are parked, and what the books show, is determined by the dead.** -/
theorem unique {g' : Heap κ} (c : h.Clears dead g) (c' : h.Clears dead g') :
    (∀ size, g'.store.parkedOf size = g.store.parkedOf size) ∧
      g'.store.vacant.length = g.store.vacant.length ∧ g'.ledger = g.ledger := by
  have hparked : ∀ size, g'.store.parkedOf size = g.store.parkedOf size := by
    intro size
    rw [Store.parkedOf_eq, Store.parkedOf_eq, c.parked, c'.parked]
  obtain ⟨sizes, hledger, hvacant, hcount⟩ := c.freed
  obtain ⟨sizes', hledger', hvacant', hcount'⟩ := c'.freed
  -- as many blocks of each size are given back
  have perm : sizes'.Perm sizes := by
    refine List.perm_iff_count.mpr fun size => ?_
    have hc := hcount size
    have hc' := hcount' size
    rw [hparked] at hc'
    omega
  refine ⟨hparked, ?_, ?_⟩
  · rw [hvacant, hvacant', perm.length_eq]
  · rw [hledger, hledger']
    exact perm.foldl_eq' (fun m _ n _ l => Ledger.free_comm l m n) h.ledger

end Clears

/-! ### The work of a release -/

theorem verdict_refused {cause : Inconsistency} (refused : h.verdict r = .refused cause) (live : h.object? r = some o) :
    o.immortal = true ∧ o.refcount = 1 := by
  unfold verdict at refused
  rw [slot_of_object? live] at refused
  simp only at refused
  split at refused
  · assumption
  · split at refused <;> cases refused

/-- **The work of a release**, while other references are still to be given back. What
each step of it keeps, beside what it fells, holds at the end. -/
theorem cascade_fells {refs left : Multiset Ref}
    {P : Finset Ref → Multiset Ref → Heap κ → Option Inconsistency → Prop}
    (refuse : ∀ {dead r left g first cause}, h.Fells refs dead (r ::ₘ left) g → g.verdict r = .refused cause →
      P dead (r ::ₘ left) g first → P dead left g (first.or (some cause)))
    (keep : ∀ {dead r left g first o}, h.Fells refs dead (r ::ₘ left) g → g.verdict r = .kept o →
      P dead (r ::ₘ left) g first → P dead left (g.decrement r o) first)
    (die : ∀ {dead r left g first o}, h.Fells refs dead (r ::ₘ left) g → g.verdict r = .dies o →
      P dead (r ::ₘ left) g first → P (insert r dead) (o.payload.children + left) (g.bury r o) first)
    (first : Option Inconsistency) (pending : List Ref) (f : h.Fells refs dead (pending + left) g)
    (p : P dead (pending + left) g first) :
    ∃ dead', h.Fells refs dead' left (g.cascade first pending).1 ∧
      P dead' left (g.cascade first pending).1 (g.cascade first pending).2 := by
  fun_induction Heap.cascade g first pending generalizing dead with
  | case1 g first =>
    rw [Multiset.coe_nil, zero_add] at f p
    exact ⟨dead, f, p⟩
  | case2 g first r rest cause hv ih =>
    rw [← Multiset.cons_coe, Multiset.cons_add] at f p
    exact ih (f.refuse fun o live => verdict_refused hv live) (refuse f hv p)
  | case3 g first r rest o hv ih =>
    obtain ⟨live, several⟩ := verdict_kept hv
    rw [← Multiset.cons_coe, Multiset.cons_add] at f p
    exact ih (f.keep live several) (keep f hv p)
  | case4 g first r rest o hv ih =>
    obtain ⟨live, last, mortal⟩ := verdict_dies hv
    rw [← Multiset.cons_coe, Multiset.cons_add] at f p
    have fdie := f.die live last mortal
    have pdie := die f hv p
    rw [← add_assoc, ← Multiset.coe_reverse, Multiset.coe_add] at fdie pdie
    exact ih fdie pdie

theorem cascade_clears {refs left : Multiset Ref} (first : Option Inconsistency) (pending : List Ref)
    (f : h.Fells refs dead (pending + left) g) (c : h.Clears dead g) :
    ∃ dead', h.Fells refs dead' left (g.cascade first pending).1 ∧ h.Clears dead' (g.cascade first pending).1 := by
  refine cascade_fells (P := fun dead _ g _ => h.Clears dead g) (fun _ _ c => c) (fun _ _ c => c.recount _ _)
    (fun f hv c => ?_) first pending f c
  obtain ⟨live, -, -⟩ := verdict_dies hv
  obtain ⟨hr, old, hold, he⟩ := f.object?_eq live
  exact c.bury hr hold (by rw [he]; rfl) (by rw [he]; rfl)

theorem release_fells {refs left : Multiset Ref} (f : h.Fells refs dead (r ::ₘ left) g) (c : h.Clears dead g) :
    ∃ dead', h.Fells refs dead' left (g.release r) ∧ h.Clears dead' (g.release r) := by
  rw [← Multiset.singleton_add, ← Multiset.coe_singleton] at f
  obtain ⟨dead', f', c'⟩ := cascade_clears Option.none [r] f c
  refine ⟨dead', ?_⟩
  unfold release tryRelease
  split
  · rename_i g' he
    rw [he] at f' c'
    exact ⟨f', c'⟩
  · rename_i g' cause he
    rw [he] at f' c'
    exact ⟨⟨f'.left_le, f'.objects, f'.mem_dead, f'.least⟩,
      ⟨c'.types, c'.interned, c'.depth, c'.slots, c'.limit, c'.parked, c'.freed⟩⟩

theorem releaseAll_fells_of {refs : Multiset Ref} : ∀ (pending : List Ref) {dead : Finset Ref} {g : Heap κ},
    h.Fells refs dead pending g → h.Clears dead g →
      ∃ dead', h.Fells refs dead' 0 (g.releaseAll pending) ∧ h.Clears dead' (g.releaseAll pending)
  | [], dead, _, f, c => ⟨dead, f, c⟩
  | r :: pending, _, _, f, c => by
    rw [← Multiset.cons_coe] at f
    obtain ⟨dead', f', c'⟩ := release_fells f c
    exact releaseAll_fells_of pending f' c'

/-- **Giving references back brings down the least set of objects that it can**, and
clears their blocks. -/
theorem releaseAll_fells (wf : h.WellFormed) (refs : List Ref) :
    ∃ dead, h.Fells refs dead 0 (h.releaseAll refs) ∧ h.Clears dead (h.releaseAll refs) :=
  releaseAll_fells_of refs (.refl (fun a o live => (wf.objects a o live).counted) refs) (.refl h)

end Heap

end CountedHeap
