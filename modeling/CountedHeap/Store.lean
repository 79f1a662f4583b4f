/-
# The store of slots

The arena, the list of its vacant slots and the free lists of parked blocks.
Vacant slots and parked blocks are both taken last in, first out. A size class
knows the head and the length of its free list; the links are in the slots.
-/
import CountedHeap.Error
import CountedHeap.Object

namespace CountedHeap

/-- The free list of one block size. -/
structure SizeClass where
  size : Nat
  head : Option Ref := none
  length : Nat := 0
  deriving DecidableEq, Repr, Inhabited

/-- The classes with the free list of one size replaced. -/
def SizeClass.update (classes : List SizeClass) (new : SizeClass) : List SizeClass :=
  classes.map fun c => if c.size = new.size then new else c

structure Store where
  slots : Array Slot
  vacant : List Ref := []
  classes : List SizeClass := []
  /-- The most blocks one class may park. -/
  classLimit : Option Nat := none
  deriving DecidableEq, Repr, Inhabited

namespace Store

variable (s : Store)

/-- The live object a reference names. -/
def object? (r : Ref) : Option Object := s.slots[r.index]?.bind Slot.object?

def put (r : Ref) (slot : Slot) : Store := { s with slots := s.slots.setIfInBounds r.index slot }

def sizeClass? (size : Nat) : Option SizeClass := s.classes.find? (·.size = size)

/-- Takes a parked block of exactly `size` bytes off its free list. The slot
still holds the stale link; the caller overwrites it. -/
def takeParked (size : Nat) : Except Fault (Option (Ref × Store)) :=
  match s.sizeClass? size with
  | some ⟨_, some r, length⟩ =>
    match s.slots[r.index]? with
    | some (.parked next _) =>
      .ok (some (r, { s with classes := SizeClass.update s.classes ⟨size, next, length - 1⟩ }))
    | _ => .error (.brokenPool r)
  | _ => .ok none

/-- The class of `size`, if there is one that takes another block. -/
def roomFor? (size : Nat) : Option SizeClass :=
  (s.sizeClass? size).filter fun c => s.classLimit.all (c.length < ·)

/-- Parks a block in its class. -/
def park (r : Ref) (c : SizeClass) : Store :=
  { s with
    slots := s.slots.setIfInBounds r.index (.parked c.head c.size)
    classes := SizeClass.update s.classes ⟨c.size, some r, c.length + 1⟩ }

/-- The slot for a fresh block: the one vacated last, or a new one at the end. -/
def freshRef : Ref := s.vacant.headD ⟨s.slots.size⟩

/-- The store once that slot is taken. -/
def takeFresh : Store :=
  match s.vacant with
  | _ :: rest => { s with vacant := rest }
  | [] => { s with slots := s.slots.push .vacant }

/-- Puts a slot on the vacant list. -/
def vacate (r : Ref) : Store := { s with vacant := r :: s.vacant }

/-- Number of blocks parked in the class of `size`. -/
def parkedOf (size : Nat) : Nat := (s.sizeClass? size).elim 0 (·.length)

/-- Number of parked blocks. -/
def parkedCount : Nat := s.classes.foldl (fun n c => n + c.length) 0

/-- Number of live objects. -/
def liveCount : Nat := s.slots.foldl (fun n slot => if slot.object?.isSome then n + 1 else n) 0

/-- Number of references that live objects own. -/
def childCount : Nat := (s.slots.toList.flatMap Slot.children).length

end Store

end CountedHeap
