/-
# Giving references back

A release takes one reference off an object. At zero the object dies: its block
is parked or given back, and the references it owned are released in turn, the
last one first. The work left is a list, so deep structures need no deep calls.

The cascade ends because each step drops one pending reference, and pending
references only come from objects that have just died: the pending ones and
those owned by live objects together get fewer (`childCount_bury`).
-/
import CountedHeap.Heap

namespace CountedHeap

variable {κ : Role → Type}

/-- What becomes of an object when a reference to it is given back. -/
inductive Verdict where
  | refused (cause : Inconsistency)
  /-- The object has other references. -/
  | kept (object : Object)
  /-- That is the last reference. -/
  | dies (object : Object)

namespace Heap

variable (h : Heap κ)

def verdict (r : Ref) : Verdict :=
  match h.store.slots[r.index]? with
  | none => .refused (.unknown r)
  | some .vacant => .refused (.freed r)
  | some (.parked _ _) => .refused (.parked r)
  | some (.live o) =>
    if o.immortal ∧ o.refcount = 1 then .refused (.immortal r (h.types.nameOf o.type))
    else if 1 < o.refcount then .kept o
    else .dies o

def setSlot (r : Ref) (slot : Slot) : Heap κ := { h with store := h.store.put r slot }

/-- Takes one reference off an object that has others. -/
def decrement (r : Ref) (o : Object) : Heap κ := h.setSlot r (.live { o with refcount := o.refcount - 1 })

/-- The class that takes the block of a dead object. -/
def parkingFor? (dead : Object) : Option SizeClass :=
  if h.types.parks dead.type then h.store.roomFor? dead.size else none

/-- Parks the block of a dead object, or gives it back. -/
def freeBlock (r : Ref) (dead : Object) : Heap κ :=
  match h.parkingFor? dead with
  | some c => { h with store := h.store.park r c }.emit (.park r dead.size)
  | none =>
    { h with store := h.store.vacate r, ledger := h.ledger.free dead.size }.emit (.free r dead.size)

/-- Takes a dead object out of its slot and frees its block. -/
def bury (r : Ref) (dead : Object) : Heap κ := (h.setSlot r .vacant).freeBlock r dead

end Heap

/-- Replacing one element changes the length by the difference. -/
theorem length_flatMap_set {α β : Type} (f : α → List β) (x y : α) : ∀ (l : List α) (i : Nat), l[i]? = some x →
    ((l.set i y).flatMap f).length + (f x).length = (l.flatMap f).length + (f y).length
  | [], _, h => by simp at h
  | a :: l, 0, h => by
    simp only [List.getElem?_cons_zero, Option.some.injEq] at h
    subst h
    simp only [List.set_cons_zero, List.flatMap_cons, List.length_append]
    omega
  | a :: l, i + 1, h => by
    have ih := length_flatMap_set f x y l i (by simpa using h)
    simp only [List.set_cons_succ, List.flatMap_cons, List.length_append]
    omega

namespace Store

theorem childCount_put {s : Store} {r : Ref} {old : Slot} (h : s.slots[r.index]? = some old) (new : Slot) :
    (s.put r new).childCount + old.children.length = s.childCount + new.children.length := by
  unfold childCount put
  rw [Array.toList_setIfInBounds]
  exact length_flatMap_set Slot.children old new _ _ (by simpa using h)

/-- Writing a slot that owns nothing never adds owned references. -/
theorem childCount_put_le (s : Store) (r : Ref) {new : Slot} (hn : new.children = []) :
    (s.put r new).childCount ≤ s.childCount := by
  cases h : s.slots[r.index]? with
  | none =>
    unfold childCount put
    exact Nat.le_of_eq (by rw [Array.setIfInBounds_eq_of_size_le (by simpa using h)])
  | some old =>
    have := childCount_put h new
    rw [hn, List.length_nil] at this
    omega

theorem childCount_park_le (s : Store) (r : Ref) (c : SizeClass) : (s.park r c).childCount ≤ s.childCount := by
  have h : (Slot.parked c.head c.size).children = [] := rfl
  exact childCount_put_le s r h

end Store

/-- The object that a verdict is about. -/
def Verdict.object? : Verdict → Option Object
  | .refused _ => none
  | .kept o | .dies o => some o

namespace Heap

/-- A verdict that is no refusal is about the object in the slot. -/
theorem slot_of_verdict {h : Heap κ} {r : Ref} {o : Object} (hv : (h.verdict r).object? = some o) :
    h.store.slots[r.index]? = some (.live o) := by
  unfold verdict at hv
  split at hv <;> try cases hv
  rename_i hs
  split at hv
  · cases hv
  split at hv <;> cases hv <;> exact hs

theorem childCount_decrement {h : Heap κ} {r : Ref} {o : Object} (hv : h.verdict r = .kept o) :
    (h.decrement r o).store.childCount = h.store.childCount := by
  have hs := slot_of_verdict (congrArg Verdict.object? hv)
  exact Nat.add_right_cancel (Store.childCount_put hs (.live { o with refcount := o.refcount - 1 }))

theorem childCount_freeBlock_le (h : Heap κ) (r : Ref) (dead : Object) :
    (h.freeBlock r dead).store.childCount ≤ h.store.childCount := by
  unfold freeBlock
  split
  · exact Store.childCount_park_le _ _ _
  · exact Nat.le_refl _

/-- A dead object takes the references it owned out of the count. -/
theorem childCount_bury {h : Heap κ} {r : Ref} {o : Object} (hv : h.verdict r = .dies o) :
    (h.bury r o).store.childCount + o.payload.children.length ≤ h.store.childCount := by
  have hput := Store.childCount_put (slot_of_verdict (congrArg Verdict.object? hv)) .vacant
  have hfree := childCount_freeBlock_le (h.setSlot r .vacant) r o
  simp only [Slot.children, List.length_nil, Nat.add_zero] at hput
  exact hput ▸ Nat.add_le_add_right hfree _

/-- Releases the pending references, the first of the list first, and gives the
first inconsistency met. An inconsistency does not stop the others. -/
def cascade (h : Heap κ) (first : Option Inconsistency) (pending : List Ref) :
    Heap κ × Option Inconsistency :=
  match pending with
  | [] => (h, first)
  | r :: rest =>
    match _hv : h.verdict r with
    | .refused cause => cascade h (first.or (some cause)) rest
    | .kept o => cascade (h.decrement r o) first rest
    | .dies o => cascade (h.bury r o) first (o.payload.children.reverse ++ rest)
termination_by pending.length + h.store.childCount
decreasing_by
  · simp
  · have := childCount_decrement _hv
    simp only [List.length_cons]
    omega
  · have := childCount_bury _hv
    simp only [List.length_append, List.length_reverse, List.length_cons]
    omega

variable (h : Heap κ)

/-- Gives a reference back and reports what did not fit. -/
def tryRelease (r : Ref) : Heap κ × Option Inconsistency := h.cascade none [r]

/-- Gives a reference back. What does not fit is counted and traced, once for the
whole cascade. -/
def release (r : Ref) : Heap κ :=
  match h.tryRelease r with
  | (h', none) => h'
  | (h', some cause) => { h' with violations := h'.violations + 1 }.emit (.violation cause)

/-- Gives references back from left to right. -/
def releaseAll (refs : List Ref) : Heap κ := refs.foldl release h

end Heap

end CountedHeap
