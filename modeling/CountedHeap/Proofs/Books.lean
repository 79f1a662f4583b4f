/-
# The books of a heap

Whoever uses a heap holds references. The heap does not know them, so they are
kept beside it here, as a multiset: `Balanced h held` says that the count of every
object is the number of references held outside, plus the number of places in
live objects that name it, plus one if it is immortal. A slot that holds no live
object counts as zero, so a reference that is held, or that a live object owns,
names a live object.

Each single step spends some references and gains some (`Act.spends`,
`Act.gains`), and the books balance again afterwards (`Change.balanced`). `Deals`
puts such steps in a row. What else is held meanwhile does not matter
(`Deals.frame`).

Objects are never changed, only made from references that are held. So there is
also a rank that falls from each object to those it owns: a new object gets one
above all its items. Slots are used again, so the index is no such rank.
-/
import Mathlib.Algebra.Order.Group.Multiset
import CountedHeap.Proofs.WellFormed

namespace CountedHeap

variable {κ : Role → Type}

/-! ### Balance -/

/-- The reference count of what may be an object. -/
def Object.count? : Option Object → Nat
  | some o => o.refcount
  | none => 0

/-- The heap's own reference to an immortal object. -/
def Object.pin? : Option Object → Nat
  | some o => if o.immortal then 1 else 0
  | none => 0

/-- How often what may be an object owns a reference to `a`. -/
def Object.mentions? (a : Ref) : Option Object → Nat
  | some o => o.payload.children.count a
  | none => 0

namespace Heap

/-- Every reference is counted once, where `held` are those outside the heap. -/
def Exact (h : Heap κ) (held : Multiset Ref) : Prop :=
  ∀ a, Object.count? (h.object? a) = held.count a + h.store.mentions a + Object.pin? (h.object? a)

/-- A rank falls from every object to those it owns. -/
def Ranked (h : Heap κ) : Prop :=
  ∃ rank : Ref → Nat, ∀ r o, h.object? r = some o → ∀ a ∈ o.payload.children, rank a < rank r

structure Balanced (h : Heap κ) (held : Multiset Ref) : Prop where
  wellFormed : h.WellFormed
  exact : h.Exact held
  ranked : h.Ranked

variable {h g : Heap κ} {held : Multiset Ref} {r : Ref} {o : Object}

/-- A rank stays one while no object comes and none owns more. -/
theorem Ranked.of_objects (ranked : h.Ranked)
    (old : ∀ r o', g.object? r = some o' → ∃ o, h.object? r = some o ∧ o'.payload = o.payload) : g.Ranked := by
  obtain ⟨rank, hr⟩ := ranked
  refine ⟨rank, fun r o' live a ha => ?_⟩
  obtain ⟨o, live, hp⟩ := old r o' live
  exact hr r o live a (hp ▸ ha)

theorem mentions_slot (h : Heap κ) (r a : Ref) :
    (h.store.slots[r.index]?).elim 0 (Slot.mentions a) = Object.mentions? a (h.object? r) := by
  unfold object? Store.object?
  cases h.store.slots[r.index]? with
  | none => rfl
  | some slot => cases slot <;> rfl

/-- A live object that owns `a` is among those that mention it. -/
theorem mentions_pos (live : h.object? r = some o) {a : Ref} (ha : a ∈ o.payload.children) :
    0 < h.store.mentions a := by
  have hmem : Slot.live o ∈ h.store.slots.toList :=
    Array.mem_toList_iff.mpr (Array.mem_of_getElem? (slot_of_object? live))
  have hle : Slot.mentions a (.live o) ≤ h.store.mentions a := List.le_sum_of_mem (List.mem_map_of_mem hmem)
  have hpos : 0 < o.payload.children.count a := List.count_pos_iff.mpr ha
  exact Nat.lt_of_lt_of_le hpos hle

/-- What is mentioned is owned by a live object. -/
theorem exists_of_mentions_pos {a : Ref} (hpos : 0 < h.store.mentions a) :
    ∃ r o, h.object? r = some o ∧ a ∈ o.payload.children := by
  obtain ⟨n, hn, hslot⟩ := List.sum_pos_iff_exists_pos_nat.mp hpos
  obtain ⟨slot, hmem, rfl⟩ := List.mem_map.mp hn
  obtain ⟨i, hi, hs⟩ := List.mem_iff_getElem.mp hmem
  cases slot with
  | live o =>
    refine ⟨⟨i⟩, o, object?_of_slot ?_, List.count_pos_iff.mp hslot⟩
    rw [← Array.getElem?_toList, List.getElem?_eq_getElem hi, hs]
  | vacant => cases hslot
  | parked next size => cases hslot

namespace Balanced

theorem live_of_count (hc : 0 < Object.count? (h.object? r)) : ∃ o, h.object? r = some o := by
  cases ho : h.object? r with
  | some o => exact ⟨o, rfl⟩
  | none =>
    rw [ho] at hc
    cases hc

/-- A reference that is held names a live object. -/
theorem held_live (b : h.Balanced held) (hr : r ∈ held) : ∃ o, h.object? r = some o := by
  apply live_of_count
  have hpos := Multiset.count_pos.mpr hr
  rw [b.exact r]
  omega

/-- An item of a live object is live. -/
theorem item_live (b : h.Balanced held) (live : h.object? r = some o) {a : Ref} (ha : a ∈ o.payload.children) :
    ∃ o', h.object? a = some o' := by
  apply live_of_count
  have hpos := mentions_pos live ha
  rw [b.exact a]
  omega

/-- A dead slot is neither held nor mentioned. -/
theorem dead_unknown (b : h.Balanced held) (dead : h.object? r = .none) :
    held.count r = 0 ∧ h.store.mentions r = 0 := by
  have he := b.exact r
  rw [dead] at he
  simp only [Object.count?, Object.pin?] at he
  omega

/-- An interned object is live and immortal. -/
theorem interned_live (b : h.Balanced held) (hr : r.index < h.interned.count) :
    ∃ o, h.object? r = some o ∧ o.immortal = true ∧ o.payload.children = [] := by
  obtain ⟨o, n, h₀, live⟩ := b.wellFormed.interned r hr
  obtain ⟨o', ho', horig⟩ := Interned.slots_original _ h₀
  cases ho'
  exact ⟨_, live, horig.immortal, horig.children⟩

/-- An immortal object owns nothing. -/
theorem immortal_children (b : h.Balanced held) (live : h.object? r = some o) (hi : o.immortal = true) :
    o.payload.children = [] := by
  obtain ⟨o', live', -, hc⟩ := b.interned_live (b.wellFormed.immortal r o live hi)
  rw [live] at live'
  cases live'
  exact hc

/-- Only the slots matter. -/
theorem of_eq (b : h.Balanced held) (wf : g.WellFormed) (store : g.store = h.store) : g.Balanced held := by
  have hobject : ∀ r, g.object? r = h.object? r := fun r => congrArg (Store.object? · r) store
  refine ⟨wf, fun r => ?_, ?_⟩
  · rw [hobject r, store]
    exact b.exact r
  · exact b.ranked.of_objects fun r o live => ⟨o, hobject r ▸ live, rfl⟩

theorem emit (b : h.Balanced held) (event : Event) : (h.emit event).Balanced held :=
  b.of_eq (b.wellFormed.of_eq rfl rfl rfl) rfl

end Balanced

/-- At the start nobody holds anything. -/
theorem balanced_ofConfig (c : Config) : (Heap.ofConfig c : Heap κ).Balanced 0 := by
  have hobject : ∀ (r : Ref) (o : Object), (Heap.ofConfig c : Heap κ).object? r = some o → Interned.Original o := by
    intro r o live
    obtain ⟨o', ho', horig⟩ := Interned.slots_original _ (slot_of_object? live)
    cases ho'
    exact horig
  have hmentions : ∀ a, (Heap.ofConfig c : Heap κ).store.mentions a = 0 := by
    intro a
    by_contra hne
    obtain ⟨r, o, live, ha⟩ := exists_of_mentions_pos (h := (Heap.ofConfig c : Heap κ)) (Nat.pos_of_ne_zero hne)
    rw [(hobject r o live).children] at ha
    cases ha
  refine ⟨WellFormed.ofConfig c, fun a => ?_, fun _ => 0, fun r o live a ha => ?_⟩
  · rw [hmentions a, Multiset.count_zero]
    cases ho : (Heap.ofConfig c : Heap κ).object? a with
    | none => rfl
    | some o =>
      have horig := hobject a o ho
      show o.refcount = 0 + 0 + if o.immortal then 1 else 0
      rw [horig.refcount, horig.immortal]
      rfl
  · rw [(hobject r o live).children] at ha
    cases ha

/-! ### What a write does to the books -/

section Writes

variable {rest : Multiset Ref} {new : Slot}

theorem mentions_writes (w : h.store.Writes g.store r new) (a : Ref) :
    g.store.mentions a + Object.mentions? a (h.object? r) = h.store.mentions a + new.mentions a := by
  rw [← mentions_slot]
  exact w.mentions_eq a

/-- The count of a live object moves by as many references as are held more or less. -/
theorem Balanced.recount {held' : Multiset Ref} {n : Nat} (b : h.Balanced held) (live : h.object? r = some o)
    (w : h.store.Writes g.store r (.live { o with refcount := n })) (wf : g.WellFormed)
    (self : held'.count r + o.refcount = held.count r + n) (other : ∀ a, a ≠ r → held'.count a = held.count a) :
    g.Balanced held' := by
  have hself : g.object? r = some { o with refcount := n } := w.object?_self
  have hm : ∀ a, g.store.mentions a = h.store.mentions a := by
    intro a
    have he := mentions_writes w a
    rw [live] at he
    exact Nat.add_right_cancel he
  refine ⟨wf, fun a => ?_, ?_⟩
  · have he := b.exact a
    rw [hm a]
    by_cases ha : a = r
    · subst ha
      rw [hself]
      rw [live] at he
      simp only [Object.count?, Object.pin?] at he ⊢
      omega
    · have hobject : g.object? a = h.object? a := w.object?_other ha
      rw [hobject, other a ha]
      exact he
  · refine b.ranked.of_objects fun a o' ha => ?_
    rcases w.object?_cases ha with ⟨rfl, he⟩ | ⟨-, ha⟩
    · cases he
      exact ⟨o, live, rfl⟩
    · exact ⟨o', ha, rfl⟩

/-- The only reference to an object is held and no other object owns it. -/
theorem Balanced.last (b : h.Balanced ({r} + rest)) (live : h.object? r = some o) (one : o.refcount = 1) :
    rest.count r = 0 ∧ h.store.mentions r = 0 := by
  have he := b.exact r
  rw [live, Multiset.count_add, Multiset.count_singleton_self] at he
  simp only [Object.count?] at he
  omega

/-- An object goes with its only reference, and what it owned is held instead. -/
theorem Balanced.remove (b : h.Balanced ({r} + rest)) (live : h.object? r = some o) (one : o.refcount = 1)
    (free : new.object? = .none) (w : h.store.Writes g.store r new) (wf : g.WellFormed) :
    g.Balanced (o.payload.children + rest) := by
  obtain ⟨hrest, hment⟩ := b.last live one
  have hself : g.object? r = .none := w.object?_self.trans free
  have hm : ∀ a, g.store.mentions a + o.payload.children.count a = h.store.mentions a := by
    intro a
    have hnew : new.mentions a = 0 := by
      cases new with
      | live o' => cases free
      | vacant => rfl
      | parked next size => rfl
    have he := mentions_writes w a
    rw [live, hnew] at he
    exact he
  refine ⟨wf, fun a => ?_, ?_⟩
  · have he := b.exact a
    have hma := hm a
    rw [Multiset.count_add] at he ⊢
    rw [Multiset.coe_count]
    by_cases ha : a = r
    · subst ha
      rw [hself]
      simp only [Object.count?, Object.pin?]
      omega
    · have hobject : g.object? a = h.object? a := w.object?_other ha
      rw [hobject]
      rw [Multiset.count_singleton, if_neg ha] at he
      omega
  · refine b.ranked.of_objects fun a o' ha => ?_
    rcases w.object?_cases ha with ⟨-, he⟩ | ⟨-, ha⟩
    · rw [free] at he
      cases he
    · exact ⟨o', ha, rfl⟩

/-- A new object takes over what it owns. -/
theorem Balanced.insert (b : h.Balanced (o.payload.children + rest)) (dead : h.object? r = .none)
    (one : o.refcount = 1) (mortal : o.immortal = false) (w : h.store.Writes g.store r (.live o))
    (wf : g.WellFormed) : g.Balanced ({r} + rest) := by
  obtain ⟨hheld, hment⟩ := b.dead_unknown dead
  rw [Multiset.count_add, Multiset.coe_count] at hheld
  have hself : g.object? r = some o := w.object?_self
  have hother : ∀ a, a ≠ r → g.object? a = h.object? a := fun a ha => w.object?_other ha
  have hm : ∀ a, g.store.mentions a = h.store.mentions a + o.payload.children.count a := by
    intro a
    have he := mentions_writes w a
    rw [dead] at he
    exact he
  refine ⟨wf, fun a => ?_, ?_⟩
  · have he := b.exact a
    have hma := hm a
    rw [Multiset.count_add, Multiset.coe_count] at he
    rw [Multiset.count_add]
    by_cases ha : a = r
    · subst ha
      rw [hself, Multiset.count_singleton_self]
      simp only [Object.count?, Object.pin?, mortal]
      rw [dead] at he
      simp only [Object.count?, Object.pin?] at he
      rw [one]
      simp only [Bool.false_eq_true, if_false]
      omega
    · rw [hother a ha, Multiset.count_singleton, if_neg ha]
      omega
  · -- nothing owns the new object, so its rank may be as high as needed
    obtain ⟨rank, hr⟩ := b.ranked
    refine ⟨fun a => if a = r then (o.payload.children.map rank).sum + 1 else rank a, fun a o' ha c hc => ?_⟩
    have hcr : c ≠ r := by
      rintro rfl
      rcases w.object?_cases ha with ⟨-, he⟩ | ⟨-, ha⟩
      · cases he
        have := List.count_pos_iff.mpr hc
        omega
      · have := mentions_pos ha hc
        omega
    simp only [if_neg hcr]
    rcases w.object?_cases ha with ⟨rfl, he⟩ | ⟨har, ha⟩
    · cases he
      rw [if_pos rfl]
      exact Nat.lt_succ_of_le (List.le_sum_of_mem (List.mem_map_of_mem hc))
    · rw [if_neg har]
      exact hr a o' ha c hc

end Writes

end Heap

/-! ### What a step spends and gains -/

namespace Act

/-- The references a step takes from whoever makes it. -/
def spends : Act → Multiset Ref
  | .drop r => {r}
  | .bury r _ => {r}
  | .make _ new => new.payload.children
  | _ => 0

/-- The references a step gives. What a dead object owned is for the one who gave
back the last reference to it, to give back in turn. -/
def gains : Act → Multiset Ref
  | .acquire r => {r}
  | .bury _ dead => dead.payload.children
  | .make r _ => {r}
  | _ => 0

end Act

/-- **Every step keeps the books.** -/
theorem Change.balanced {h g : Heap κ} {a : Act} (c : Change h a g) {rest : Multiset Ref}
    (b : h.Balanced (a.spends + rest)) : g.Balanced (a.gains + rest) := by
  have wf := c.wellFormed b.wellFormed
  have effect := c.effect b.wellFormed
  cases a with
  | acquire r =>
    obtain ⟨o, live, w⟩ := effect
    refine b.recount live w wf ?_ fun a ha => ?_
    · simp only [Act.spends, Act.gains, zero_add, Multiset.count_add, Multiset.count_singleton_self]
      omega
    · simp only [Act.spends, Act.gains, zero_add, Multiset.count_add, Multiset.count_singleton, if_neg ha]
  | drop r =>
    obtain ⟨o, live, hlt, w⟩ := effect
    refine b.recount live w wf ?_ fun a ha => ?_
    · simp only [Act.spends, Act.gains, zero_add, Multiset.count_add, Multiset.count_singleton_self]
      omega
    · simp only [Act.spends, Act.gains, zero_add, Multiset.count_add, Multiset.count_singleton, if_neg ha]
  | bury r dead =>
    obtain ⟨live, one, -, free, hfree, w⟩ := effect
    exact b.remove live one hfree w wf
  | make r new =>
    obtain ⟨dead, one, mortal, w⟩ := effect
    exact b.insert dead one mortal w wf
  | hit | dispatch | skip | register | setDepth | configure => exact b.of_eq wf effect

/-- Only a release that does not fit is counted as such. -/
theorem Change.violations {h g : Heap κ} {a : Act} (c : Change h a g) (fits : ∀ cause, a ≠ .skip cause) :
    g.violations = h.violations := by
  cases c with
  | skip cause => exact absurd rfl (fits cause)
  | @bury r o _ => rcases Heap.bury_cases h r o with ⟨c, -, -, he⟩ | he <;> rw [he] <;> rfl
  | make _ _ taken =>
    rcases Heap.takeBlock_cases taken with ⟨c, next, n, -, -, -, rfl⟩ | ⟨ledger, -, -, -, rfl⟩ <;> rfl
  | acquire | drop | hit | dispatch | register | setDepth | withTracker | withSink => rfl

/-! ### Dealing in references -/

/-- Steps in a row, none of them a release that does not fit: who holds `given` in
the first heap holds `made` in the last. -/
inductive Deals : Heap κ → Multiset Ref → Heap κ → Multiset Ref → Prop
  | refl {h : Heap κ} {held : Multiset Ref} : Deals h held h held
  | step {h g h' : Heap κ} {a : Act} {rest made : Multiset Ref} (fits : ∀ cause, a ≠ .skip cause)
      (c : Change h a g) (next : Deals g (a.gains + rest) h' made) : Deals h (a.spends + rest) h' made

namespace Deals

variable {h g h' : Heap κ} {given kept made : Multiset Ref}

theorem single {a : Act} (c : Change h a g) (fits : ∀ cause, a ≠ .skip cause) : Deals h a.spends g a.gains := by
  have d : Deals h (a.spends + 0) g (a.gains + 0) := .step fits c .refl
  rw [add_zero, add_zero] at d
  exact d

theorem acquire {r : Ref} {o : Object} (live : h.object? r = some o) :
    Deals h 0 (h.setSlot r (.live { o with refcount := o.refcount + 1 })) {r} :=
  single (Change.acquire live) fun _ => Act.noConfusion

theorem drop {r : Ref} {o : Object} (kept : h.verdict r = .kept o) : Deals h {r} (h.decrement r o) 0 :=
  single (Change.drop kept) fun _ => Act.noConfusion

theorem bury {r : Ref} {o : Object} (dies : h.verdict r = .dies o) :
    Deals h {r} (h.bury r o) o.payload.children :=
  single (Change.bury dies) fun _ => Act.noConfusion

theorem hit {r : Ref} (interned : r.index < h.interned.count) : Deals h 0 (h.emit (.hit r)) 0 :=
  single (Change.hit interned) fun _ => Act.noConfusion

theorem dispatch (op typeName : String) (position : Nat) :
    Deals h 0 (h.emit (.dispatch op typeName position)) 0 :=
  single (Change.dispatch op typeName position) fun _ => Act.noConfusion

theorem setDepth (n : Nat) : Deals h 0 { h with depth := n } 0 :=
  single (Change.setDepth n) fun _ => Act.noConfusion

theorem withTracker (t : Tracker) : Deals h 0 (h.withTracker t) 0 :=
  single (Change.withTracker t) fun _ => Act.noConfusion

theorem withSink (sink : Sink) : Deals h 0 (h.withSink sink) 0 :=
  single (Change.withSink sink) fun _ => Act.noConfusion

theorem trans (first : Deals h given g kept) (last : Deals g kept h' made) : Deals h given h' made := by
  induction first with
  | refl => exact last
  | step fits c _ ih => exact .step fits c (ih last)

/-- What else is held stays held. -/
theorem frame (d : Deals h given g made) (rest : Multiset Ref) : Deals h (given + rest) g (made + rest) := by
  induction d with
  | refl => exact .refl
  | @step h g h' a more made fits c _ ih =>
    rw [add_assoc] at ih ⊢
    exact .step fits c ih

/-- Dealing with a part of what is held, then with all of it. -/
theorem andThen {rest : Multiset Ref} (first : Deals h given g kept) (last : Deals g (kept + rest) h' made) :
    Deals h (given + rest) h' made :=
  (first.frame rest).trans last

/-- What each step keeps, dealing keeps. -/
theorem induct {P : Heap κ → Prop} (d : Deals h given g made) {rest : Multiset Ref}
    (b : h.Balanced (given + rest)) (start : P h)
    (step : ∀ {h a g held}, (∀ cause, a ≠ .skip cause) → Change h a g → h.Balanced (a.spends + (held + rest)) →
      P h → P g) : P g := by
  induction d with
  | refl => exact start
  | @step h g h' a more made fits c _ ih =>
    rw [add_assoc] at b
    refine ih ?_ (step fits c b start)
    rw [add_assoc]
    exact c.balanced b

theorem balanced (d : Deals h given g made) {rest : Multiset Ref} (b : h.Balanced (given + rest)) :
    g.Balanced (made + rest) := by
  induction d with
  | refl => exact b
  | @step h g h' a more made fits c _ ih =>
    rw [add_assoc] at b
    have b' := c.balanced b
    rw [← add_assoc] at b'
    exact ih b'

/-- Dealing in nothing leaves what is held. -/
theorem unchanged {held : Multiset Ref} (d : Deals h 0 g 0) (b : h.Balanced held) : g.Balanced held := by
  rw [← zero_add held] at b ⊢
  exact d.balanced b

/-- No release is skipped. -/
theorem violations (d : Deals h given g made) : g.violations = h.violations := by
  induction d with
  | refl => rfl
  | @step h g h' a more made fits c _ ih => exact ih.trans (c.violations fits)

theorem layout (d : Deals h given g made) :
    g.interned = h.interned ∧ g.store.classLimit = h.store.classLimit ∧
      g.store.classes.map SizeClass.size = h.store.classes.map SizeClass.size := by
  induction d with
  | refl => exact ⟨rfl, rfl, rfl⟩
  | step _ c _ ih =>
    obtain ⟨interned, limit, sizes⟩ := c.layout
    exact ⟨ih.1.trans interned, ih.2.1.trans limit, ih.2.2.trans sizes⟩

theorem interned (d : Deals h given g made) : g.interned = h.interned := d.layout.1

end Deals

end CountedHeap
