/-
# Every slot is accounted for

A store keeps two kinds of free slots apart: the vacant ones are on a list, and
the parked ones are on the free list of their size, which is threaded through
the slots themselves. `Formed s chain` says that the list holds each vacant slot
once, and that following the links of a class from its head visits exactly
`chain size`, which holds each parked slot of that size once.

An operation on the store writes one slot. A write to a live slot leaves both
kinds alone; the other four (parking, vacating, reusing a parked block, filling
a fresh slot) move one slot from or to the front of a list.

Key definitions: `Linked`, `Store.Formed`.
-/
import Mathlib.Logic.Function.Basic
import Mathlib.Tactic.Set
import CountedHeap.Proofs.Slots

namespace CountedHeap

/-- The links from `head` visit `blocks`, all parked with `size` bytes, and end there. -/
def Linked (slots : Array Slot) (size : Nat) : Option Ref → List Ref → Prop
  | head, [] => head = none
  | head, r :: rest =>
    head = some r ∧ ∃ next, slots[r.index]? = some (.parked next size) ∧ Linked slots size next rest

namespace Linked

variable {slots slots' : Array Slot} {size : Nat}

theorem parked : ∀ {blocks : List Ref} {head : Option Ref}, Linked slots size head blocks →
    ∀ a ∈ blocks, ∃ next, slots[a.index]? = some (.parked next size)
  | r :: rest, head, h, a, ha => by
    obtain ⟨-, next, hs, ht⟩ := h
    rcases List.mem_cons.mp ha with rfl | ha
    · exact ⟨next, hs⟩
    · exact ht.parked a ha

/-- Only the visited slots matter. -/
theorem congr : ∀ {blocks : List Ref} {head : Option Ref}, Linked slots size head blocks →
    (∀ a ∈ blocks, slots'[a.index]? = slots[a.index]?) → Linked slots' size head blocks
  | [], _, h, _ => h
  | r :: rest, head, h, same => by
    obtain ⟨hh, next, hs, ht⟩ := h
    refine ⟨hh, next, ?_, ht.congr fun a ha => same a (List.mem_cons_of_mem _ ha)⟩
    rw [same r List.mem_cons_self, hs]

/-- A list that starts at `r` visits `r` first. -/
theorem head_eq {blocks : List Ref} {r : Ref} (h : Linked slots size (some r) blocks) :
    ∃ next rest, blocks = r :: rest ∧ slots[r.index]? = some (.parked next size) ∧
      Linked slots size next rest := by
  cases blocks with
  | nil => cases h
  | cons b rest =>
    obtain ⟨hh, next, hs, ht⟩ := h
    cases hh
    exact ⟨next, rest, rfl, hs, ht⟩

end Linked

namespace SizeClass

theorem mem_update {classes : List SizeClass} {new c : SizeClass} (h : c ∈ update classes new) :
    c = new ∨ c ∈ classes ∧ c.size ≠ new.size := by
  obtain ⟨c0, hc0, rfl⟩ := List.mem_map.mp h
  by_cases hs : c0.size = new.size
  · rw [if_pos hs]
    exact Or.inl rfl
  · rw [if_neg hs]
    exact Or.inr ⟨hc0, hs⟩

/-- Replacing a free list keeps the sizes of all classes. -/
theorem map_size_update (classes : List SizeClass) (new : SizeClass) :
    (update classes new).map size = classes.map size := by
  unfold update
  rw [List.map_map]
  refine List.map_congr_left fun c _ => ?_
  by_cases hs : c.size = new.size
  · simp [hs]
  · simp [hs]

end SizeClass

namespace Store

theorem sizeClass?_mem {s : Store} {size : Nat} {c : SizeClass} (h : s.sizeClass? size = some c) :
    c ∈ s.classes ∧ c.size = size := by
  refine ⟨List.mem_of_find?_eq_some h, ?_⟩
  have := List.find?_some h
  simpa using this

theorem takeFresh_vacant (s : Store) : s.takeFresh.vacant = s.vacant.tail := by
  unfold takeFresh
  cases s.vacant <;> rfl

theorem takeFresh_classes (s : Store) : s.takeFresh.classes = s.classes := by
  unfold takeFresh
  cases s.vacant <;> rfl

theorem takeFresh_classLimit (s : Store) : s.takeFresh.classLimit = s.classLimit := by
  unfold takeFresh
  cases s.vacant <;> rfl

/-- Vacant and parked slots are on their lists, each once, and nothing else is. -/
structure Formed (s : Store) (chain : Nat → List Ref) : Prop where
  vacant_nodup : s.vacant.Nodup
  mem_vacant : ∀ r : Ref, r ∈ s.vacant ↔ s.slots[r.index]? = some .vacant
  sizes_nodup : (s.classes.map SizeClass.size).Nodup
  linked : ∀ c ∈ s.classes, Linked s.slots c.size c.head (chain c.size)
  nodup : ∀ c ∈ s.classes, (chain c.size).Nodup
  length : ∀ c ∈ s.classes, (chain c.size).length = c.length
  covered : ∀ (r : Ref) (next : Option Ref) (size : Nat), s.slots[r.index]? = some (.parked next size) →
    r ∈ chain size ∧ size ∈ s.classes.map SizeClass.size
  limited : ∀ c ∈ s.classes, ∀ limit, s.classLimit = some limit → c.length ≤ limit

namespace Formed

variable {s s' : Store} {chain : Nat → List Ref} {r : Ref} {o o' : Object}

theorem not_parked_of_live (live : s.slots[r.index]? = some (.live o)) (next : Option Ref) (size : Nat) :
    s.slots[r.index]? ≠ some (.parked next size) := by
  rw [live]
  simp

theorem not_vacant_of_live (live : s.slots[r.index]? = some (.live o)) : s.slots[r.index]? ≠ some .vacant := by
  rw [live]
  simp

/-- A slot that is not parked is on no free list. -/
theorem not_mem_chain (f : Formed s chain) {c : SizeClass} (hc : c ∈ s.classes)
    (hr : ∀ next size, s.slots[r.index]? ≠ some (.parked next size)) : r ∉ chain c.size := by
  intro hmem
  obtain ⟨next, hs⟩ := (f.linked c hc).parked r hmem
  exact hr _ _ hs

/-- A write to a slot that is not parked leaves the free lists where they are. -/
theorem linked_of_writes (f : Formed s chain) {new : Slot} (w : Writes s s' r new)
    (hr : ∀ next size, s.slots[r.index]? ≠ some (.parked next size)) {c : SizeClass} (hc : c ∈ s.classes) :
    Linked s'.slots c.size c.head (chain c.size) := by
  refine (f.linked c hc).congr fun a ha => w.other ?_
  rintro rfl
  exact f.not_mem_chain hc hr ha

/-- A live object is replaced by another. -/
theorem rewrite (f : Formed s chain) (live : s.slots[r.index]? = some (.live o)) (w : Writes s s' r (.live o'))
    (hv : s'.vacant = s.vacant) (hc : s'.classes = s.classes) (hl : s'.classLimit = s.classLimit) :
    Formed s' chain := by
  refine ⟨hv ▸ f.vacant_nodup, fun a => ?_, hc ▸ f.sizes_nodup,
    fun c h => f.linked_of_writes w (not_parked_of_live live) (hc ▸ h), fun c h => f.nodup c (hc ▸ h),
    fun c h => f.length c (hc ▸ h), fun a next size ha => ?_,
    fun c h limit hlim => f.limited c (hc ▸ h) limit (hl ▸ hlim)⟩
  · rw [hv, f.mem_vacant]
    exact (w.slot_iff (not_vacant_of_live live) Slot.noConfusion a).symm
  · rw [hc]
    rcases w.slot_cases ha with ⟨-, he⟩ | ⟨-, ha⟩
    · cases he
    · exact f.covered a next size ha

/-- The slot of a dead object becomes vacant. -/
theorem vacate (f : Formed s chain) (live : s.slots[r.index]? = some (.live o)) :
    Formed ((s.put r .vacant).vacate r) chain := by
  have w : Writes s ((s.put r .vacant).vacate r) r .vacant := writes_put live .vacant
  have hnew : r ∉ s.vacant := fun hin => not_vacant_of_live live ((f.mem_vacant r).mp hin)
  refine ⟨List.nodup_cons.mpr ⟨hnew, f.vacant_nodup⟩, fun a => ?_, f.sizes_nodup,
    fun c h => f.linked_of_writes w (not_parked_of_live live) h, f.nodup, f.length, fun a next size ha => ?_, f.limited⟩
  · show a ∈ r :: s.vacant ↔ _
    rw [List.mem_cons, f.mem_vacant]
    by_cases ha : a = r
    · subst ha
      rw [w.self]
      simp
    · rw [w.other ha]
      simp [ha]
  · rcases w.slot_cases ha with ⟨-, he⟩ | ⟨-, ha⟩
    · cases he
    · exact f.covered a next size ha

/-- A slot goes to the free list of one class, or comes from it. -/
theorem relink (f : Formed s chain) {c : SizeClass} (hmem : c ∈ s.classes) {head : Option Ref} {n : Nat}
    {blocks : List Ref} {new : Slot} (w : Writes s s' r new) (hold : s.slots[r.index]? ≠ some .vacant)
    (hnew : new ≠ .vacant) (hv : s'.vacant = s.vacant) (hl : s'.classLimit = s.classLimit)
    (hc : s'.classes = SizeClass.update s.classes ⟨c.size, head, n⟩)
    (apart : ∀ c' ∈ s.classes, c'.size ≠ c.size → r ∉ chain c'.size)
    (linked : Linked s'.slots c.size head blocks) (nodup : blocks.Nodup) (length : blocks.length = n)
    (limited : ∀ limit, s.classLimit = some limit → n ≤ limit)
    (stays : ∀ a ∈ chain c.size, a ≠ r → a ∈ blocks)
    (goes : ∀ next size, new = .parked next size → size = c.size ∧ r ∈ blocks) :
    Formed s' (Function.update chain c.size blocks) := by
  refine ⟨hv ▸ f.vacant_nodup, fun a => ?_, ?_, fun c' h => ?_, fun c' h => ?_, fun c' h => ?_,
    fun a next size ha => ?_, fun c' h limit hlim => ?_⟩
  · rw [hv, f.mem_vacant]
    exact (w.slot_iff hold hnew a).symm
  · rw [hc, SizeClass.map_size_update]
    exact f.sizes_nodup
  · rcases SizeClass.mem_update (hc ▸ h) with rfl | ⟨h, hne⟩
    · rw [Function.update_self]
      exact linked
    · rw [Function.update_of_ne hne]
      exact (f.linked c' h).congr fun a ha => w.other fun hra => apart c' h hne (hra ▸ ha)
  · rcases SizeClass.mem_update (hc ▸ h) with rfl | ⟨h, hne⟩
    · rw [Function.update_self]
      exact nodup
    · rw [Function.update_of_ne hne]
      exact f.nodup c' h
  · rcases SizeClass.mem_update (hc ▸ h) with rfl | ⟨h, hne⟩
    · rw [Function.update_self]
      exact length
    · rw [Function.update_of_ne hne]
      exact f.length c' h
  · rw [hc, SizeClass.map_size_update]
    rcases w.slot_cases ha with ⟨rfl, he⟩ | ⟨har, ha⟩
    · obtain ⟨rfl, hin⟩ := goes next size he.symm
      rw [Function.update_self]
      exact ⟨hin, List.mem_map.mpr ⟨c, hmem, rfl⟩⟩
    · obtain ⟨hin, hsize⟩ := f.covered a next size ha
      refine ⟨?_, hsize⟩
      by_cases hs : size = c.size
      · subst hs
        rw [Function.update_self]
        exact stays a hin har
      · rw [Function.update_of_ne hs]
        exact hin
  · rcases SizeClass.mem_update (hc ▸ h) with rfl | ⟨h, -⟩
    · exact limited limit (hl ▸ hlim)
    · exact f.limited c' h limit (hl ▸ hlim)

/-- The block of a dead object is put in front of the free list of its size. -/
theorem park (f : Formed s chain) (live : s.slots[r.index]? = some (.live o)) {size : Nat} {c : SizeClass}
    (room : s.roomFor? size = some c) :
    Formed (s.park r c) (Function.update chain size (r :: chain size)) := by
  obtain ⟨hfind, hroom⟩ := Option.filter_eq_some_iff.mp room
  obtain ⟨hmem, rfl⟩ := sizeClass?_mem hfind
  have w : Writes s (s.park r c) r (.parked c.head c.size) := writes_put live _
  have hout : ∀ c' ∈ s.classes, r ∉ chain c'.size := fun c' h => f.not_mem_chain h (not_parked_of_live live)
  refine f.relink hmem w (not_vacant_of_live live) Slot.noConfusion rfl rfl rfl (fun c' h _ => hout c' h)
    ⟨rfl, c.head, w.self, f.linked_of_writes w (not_parked_of_live live) hmem⟩
    (List.nodup_cons.mpr ⟨hout c hmem, f.nodup c hmem⟩) (by rw [List.length_cons, f.length c hmem])
    (fun limit hlim => ?_) (fun a ha _ => List.mem_cons_of_mem _ ha) (fun next size he => ?_)
  · rw [hlim] at hroom
    have hlt : c.length < limit := by simpa using hroom
    exact hlt
  · cases he
    exact ⟨rfl, List.mem_cons_self⟩

/-- The first block of a free list becomes an object. -/
theorem reuse (f : Formed s chain) {size : Nat} {c : SizeClass} {next : Option Ref} {n : Nat}
    (found : s.sizeClass? size = some c) (head : c.head = some r)
    (parked : s.slots[r.index]? = some (.parked next n)) :
    Formed ({ s with classes := SizeClass.update s.classes ⟨size, next, c.length - 1⟩ }.put r (.live o))
      (Function.update chain size (chain size).tail) := by
  obtain ⟨hmem, rfl⟩ := sizeClass?_mem found
  obtain ⟨next', rest, hchain, hs, hrest⟩ := (head ▸ f.linked c hmem).head_eq
  rw [parked] at hs
  obtain ⟨rfl, rfl⟩ := Slot.parked.inj (Option.some.inj hs)
  have w : Writes s ({ s with classes := SizeClass.update s.classes ⟨c.size, next, c.length - 1⟩ }.put r (.live o)) r
      (.live o) := writes_put parked _
  have hnodup := f.nodup c hmem
  have hlength := f.length c hmem
  rw [hchain] at hnodup hlength
  obtain ⟨hout, hnodup⟩ := List.nodup_cons.mp hnodup
  rw [hchain, List.tail_cons]
  refine f.relink hmem w (by rw [parked]; simp) Slot.noConfusion rfl rfl rfl (fun c' hc' hne hin => ?_)
    (hrest.congr fun a ha => w.other fun hra => hout (hra ▸ ha)) hnodup
    (by rw [← hlength, List.length_cons, Nat.add_sub_cancel])
    (fun limit hlim => Nat.le_trans (Nat.sub_le _ _) (f.limited c hmem limit hlim)) (fun a ha har => ?_)
    (fun _ _ he => Slot.noConfusion he)
  · -- a block is on the list of its own size only
    obtain ⟨next', hp⟩ := (f.linked c' hc').parked r hin
    rw [parked] at hp
    exact hne (Slot.parked.inj (Option.some.inj hp)).2.symm
  · rw [hchain] at ha
    exact (List.mem_cons.mp ha).resolve_left har

/-- The slot for a fresh block is vacant, or it is the next new one. -/
theorem writes_fresh (f : Formed s chain) :
    Writes s (s.takeFresh.put s.freshRef (.live o)) s.freshRef (.live o) ∧
      (s.slots[s.freshRef.index]? = some .vacant ∨ s.freshRef.index = s.slots.size) := by
  unfold takeFresh freshRef
  cases hv : s.vacant with
  | nil =>
    refine ⟨?_, Or.inr rfl⟩
    have hpush : (s.slots.push .vacant).setIfInBounds s.slots.size (.live o) = s.slots.push (.live o) := by
      apply Array.ext_getElem?
      intro i
      rw [Array.getElem?_setIfInBounds, Array.getElem?_push, Array.getElem?_push]
      by_cases hi : s.slots.size = i
      · simp [hi]
      · simp [hi, Ne.symm hi]
    exact writes_push hpush
  | cons r rest =>
    have hr : s.slots[r.index]? = some .vacant := (f.mem_vacant r).mp (by simp [hv])
    exact ⟨writes_put (s := { s with vacant := rest }) hr _, Or.inl hr⟩

/-- A fresh slot becomes an object. -/
theorem fill (f : Formed s chain) : Formed (s.takeFresh.put s.freshRef (.live o)) chain := by
  obtain ⟨w, hfree⟩ := f.writes_fresh (o := o)
  set s' := s.takeFresh.put s.freshRef (.live o) with hs'
  have hr : ∀ next size, s.slots[s.freshRef.index]? ≠ some (.parked next size) := by
    intro next size
    rcases hfree with hfree | hfree
    · rw [hfree]
      simp
    · rw [hfree, Array.getElem?_eq_none (Nat.le_refl _)]
      simp
  have hvac : s'.vacant = s.vacant.tail := s.takeFresh_vacant
  have hclasses : s'.classes = s.classes := s.takeFresh_classes
  have hlimit : s'.classLimit = s.classLimit := s.takeFresh_classLimit
  refine ⟨?_, fun a => ?_, hclasses ▸ f.sizes_nodup, fun c h => f.linked_of_writes w hr (hclasses ▸ h),
    fun c h => f.nodup c (hclasses ▸ h), fun c h => f.length c (hclasses ▸ h), fun a next size ha => ?_,
    fun c h limit hlim => f.limited c (hclasses ▸ h) limit (hlimit ▸ hlim)⟩
  · rw [hvac]
    exact f.vacant_nodup.sublist (List.tail_sublist _)
  · rw [hvac]
    have hnodup := f.vacant_nodup
    by_cases ha : a = s.freshRef
    · rw [ha, w.self]
      refine ⟨fun hin => ?_, fun h => by simp at h⟩
      unfold freshRef at hin
      cases hv : s.vacant with
      | nil => simp [hv] at hin
      | cons b rest =>
        rw [hv] at hin hnodup
        exact absurd hin (List.nodup_cons.mp hnodup).1
    · rw [w.other ha, ← f.mem_vacant]
      cases hv : s.vacant with
      | nil => simp
      | cons b rest =>
        have hab : a ≠ b := by
          intro hab
          apply ha
          unfold freshRef
          rw [hv, hab]
          rfl
        simp [hab]
  · rw [hclasses]
    rcases w.slot_cases ha with ⟨-, he⟩ | ⟨-, ha⟩
    · cases he
    · exact f.covered a next size ha

end Formed

end Store

end CountedHeap
