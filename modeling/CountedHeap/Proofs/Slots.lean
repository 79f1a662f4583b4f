/-
# What is written to the slots

Every change of a store writes at most one slot: one that exists, or the next
new one at the end. `Writes` says so without saying how, and what a write does to
the objects and to a sum over all slots follows from it.
-/
import Mathlib.Algebra.BigOperators.Group.List.Basic
import Mathlib.Algebra.Order.BigOperators.Group.List
import Mathlib.Algebra.Order.Ring.Nat
import Mathlib.Tactic.ByContra
import CountedHeap.Heap.Release

namespace CountedHeap

theorem Ref.index_ne {a r : Ref} (h : a ≠ r) : a.index ≠ r.index := by
  intro he
  apply h
  cases a
  cases r
  rw [Ref.mk.injEq]
  exact he

/-- How often the object in a slot owns a reference to `r`. -/
def Slot.mentions (r : Ref) : Slot → Nat
  | .live o => o.payload.children.count r
  | _ => 0

/-- Replacing one element changes a sum by the difference. -/
theorem sum_map_set {α : Type} (f : α → Nat) {l : List α} {i : Nat} {x : α} (h : l[i]? = some x) (y : α) :
    ((l.set i y).map f).sum + f x = (l.map f).sum + f y := by
  obtain ⟨hi, rfl⟩ := List.getElem?_eq_some_iff.mp h
  have split := List.sum_take_add_sum_drop (l.map f) (i + 1)
  rw [List.take_succ_eq_append_getElem (by simpa using hi), List.sum_append, List.sum_singleton,
    List.getElem_map] at split
  rw [List.map_set, List.sum_set, if_pos (by simpa using hi)]
  omega

namespace Store

/-- How often the live objects own a reference to `r`, all together. -/
def mentions (s : Store) (r : Ref) : Nat := (s.slots.toList.map (Slot.mentions r)).sum

/-- `s'` has `new` in the slot of `r`, and all else as in `s`. -/
def Writes (s s' : Store) (r : Ref) (new : Slot) : Prop :=
  ∀ i, s'.slots[i]? = if i = r.index then some new else s.slots[i]?

theorem writes_put {s : Store} {r : Ref} {old : Slot} (h : s.slots[r.index]? = some old) (new : Slot) :
    Writes s (s.put r new) r new := by
  intro i
  obtain ⟨hlt, -⟩ := Array.getElem?_eq_some_iff.mp h
  unfold put
  rw [Array.getElem?_setIfInBounds]
  by_cases hi : i = r.index
  · rw [if_pos hi.symm, if_pos hi, if_pos hlt]
  · rw [if_neg (Ne.symm hi), if_neg hi]

theorem writes_push {s s' : Store} {new : Slot} (h : s'.slots = s.slots.push new) :
    Writes s s' ⟨s.slots.size⟩ new := by
  intro i
  rw [h, Array.getElem?_push]

namespace Writes

variable {s s' : Store} {r : Ref} {new : Slot} (w : Writes s s' r new)
include w

theorem self : s'.slots[r.index]? = some new := by rw [w, if_pos rfl]

theorem other {a : Ref} (h : a ≠ r) : s'.slots[a.index]? = s.slots[a.index]? := by
  rw [w, if_neg (Ref.index_ne h)]

/-- What is in a slot was written, or was there. -/
theorem slot_cases {a : Ref} {x : Slot} (h : s'.slots[a.index]? = some x) :
    a = r ∧ x = new ∨ a ≠ r ∧ s.slots[a.index]? = some x := by
  by_cases ha : a = r
  · rw [ha, w.self] at h
    exact Or.inl ⟨ha, (Option.some.inj h).symm⟩
  · rw [w.other ha] at h
    exact Or.inr ⟨ha, h⟩

/-- What neither is written nor was where it is written has stayed where it was. -/
theorem slot_iff {x : Slot} (hold : s.slots[r.index]? ≠ some x) (hnew : new ≠ x) (a : Ref) :
    s'.slots[a.index]? = some x ↔ s.slots[a.index]? = some x := by
  by_cases ha : a = r
  · rw [ha, w.self]
    exact ⟨fun h => absurd (Option.some.inj h) hnew, fun h => absurd h hold⟩
  · rw [w.other ha]

theorem object?_self : s'.object? r = new.object? := by
  unfold object?
  rw [w.self]
  rfl

theorem object?_other {a : Ref} (h : a ≠ r) : s'.object? a = s.object? a := by
  unfold object?
  rw [w.other h]

/-- A live object was written, or was there. -/
theorem object?_cases {a : Ref} {o : Object} (h : s'.object? a = some o) :
    a = r ∧ new.object? = some o ∨ a ≠ r ∧ s.object? a = some o := by
  by_cases ha : a = r
  · rw [ha, w.object?_self] at h
    exact Or.inl ⟨ha, h⟩
  · rw [w.object?_other ha] at h
    exact Or.inr ⟨ha, h⟩

/-- A write in place keeps the number of slots, and a write behind the last slot adds one. -/
theorem toList_eq : s'.slots.toList = s.slots.toList.set r.index new ∧ r.index < s.slots.size ∨
    s'.slots.toList = s.slots.toList ++ [new] ∧ r.index = s.slots.size := by
  have hself : r.index < s'.slots.size := (Array.getElem?_eq_some_iff.mp w.self).1
  rcases Nat.lt_or_ge r.index s.slots.size with hlt | hge
  · refine Or.inl ⟨List.ext_getElem? fun i => ?_, hlt⟩
    rw [Array.getElem?_toList, w, List.getElem?_set, Array.getElem?_toList]
    by_cases hi : i = r.index
    · rw [if_pos hi, if_pos hi.symm, if_pos (by simpa using hlt)]
    · rw [if_neg hi, if_neg (Ne.symm hi)]
  · -- a gap before the written slot would be a slot of the new array that holds nothing
    have hr : r.index = s.slots.size := by
      by_contra hne
      have hgap := w s.slots.size
      rw [if_neg (Ne.symm hne), Array.getElem?_eq_none (Nat.le_refl _)] at hgap
      have := Array.getElem?_eq_none_iff.mp hgap
      omega
    refine Or.inr ⟨List.ext_getElem? fun i => ?_, hr⟩
    rw [Array.getElem?_toList, w, hr]
    rcases Nat.lt_trichotomy i s.slots.size with hi | hi | hi
    · rw [if_neg (by omega), List.getElem?_append_left (by simpa using hi), Array.getElem?_toList]
    · subst hi
      rw [if_pos rfl]
      simp
    · rw [if_neg (by omega), Array.getElem?_eq_none (by omega)]
      refine (List.getElem?_eq_none ?_).symm
      simp only [List.length_append, Array.length_toList, List.length_singleton]
      omega

/-- A write changes a sum over the slots by the difference of the new and the old summand. -/
theorem sum_eq (f : Slot → Nat) :
    (s'.slots.toList.map f).sum + (s.slots[r.index]?).elim 0 f = (s.slots.toList.map f).sum + f new := by
  rcases w.toList_eq with ⟨hl, hlt⟩ | ⟨hl, hr⟩
  · obtain ⟨old, hold⟩ : ∃ old, s.slots[r.index]? = some old := ⟨_, Array.getElem?_eq_getElem hlt⟩
    rw [hl, hold]
    exact sum_map_set f (by simpa using hold) new
  · rw [hl, List.map_append, List.sum_append, List.map_singleton, List.sum_singleton, hr,
      Array.getElem?_eq_none (Nat.le_refl _)]
    rfl

theorem mentions_eq (a : Ref) :
    s'.mentions a + (s.slots[r.index]?).elim 0 (Slot.mentions a) = s.mentions a + new.mentions a :=
  w.sum_eq _

end Writes

end Store

end CountedHeap
