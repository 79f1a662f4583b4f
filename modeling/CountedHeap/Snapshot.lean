/-
# Snapshots and their differences

A snapshot counts what a heap holds. Two snapshots are compared by deltas that
are exact up to the bounds of a 64-bit integer, where they stop. Types are told
apart by their names, listed in the order of their code points.
-/
import CountedHeap.Heap
import Std.Data.TreeMap

namespace CountedHeap

structure Snapshot where
  liveObjects : Nat := 0
  immortalObjects : Nat := 0
  parkedBlocks : Nat := 0
  vacantSlots : Nat := 0
  totalSlots : Nat := 0
  /-- Live objects by the name of their type. -/
  objectsByType : Std.TreeMap String Nat := {}
  violations : Nat := 0
  trackerAllocations : Option Nat := none
  trackerMemory : Option Nat := none

namespace Heap

variable {κ : Role → Type} (h : Heap κ)

/-- The live objects, in the order of their slots. -/
def liveObjects : List Object := h.store.slots.toList.filterMap Slot.object?

/-- One more object of a type. -/
def countType (types : Registry κ) (counts : Std.TreeMap String Nat) (o : Object) : Std.TreeMap String Nat :=
  counts.alter (types.nameOf o.type) fun n => some (n.getD 0 + 1)

def snapshot : Snapshot where
  liveObjects := h.store.liveCount
  immortalObjects := (h.liveObjects.filter (·.immortal)).length
  parkedBlocks := h.store.parkedCount
  vacantSlots := h.store.vacant.length
  totalSlots := h.store.slots.size
  objectsByType := h.liveObjects.foldl (countType h.types) {}
  violations := h.violations
  trackerAllocations := h.ledger.tracker.allocationCount
  trackerMemory := h.ledger.tracker.memoryBytes

end Heap

/-- `after - before`, kept within the bounds of a 64-bit integer. -/
def delta (before after : Nat) : Int := (Word.difference before after).toInt

/-- The delta of counts that may be missing. -/
def delta? : Option Nat → Option Nat → Option Int
  | some before, some after => some (delta before after)
  | _, _ => none

/-- A delta with its sign. -/
def signed (d : Int) : String := if d < 0 then toString d else "+" ++ toString d

structure Diff where
  liveObjects : Int
  parkedBlocks : Int
  vacantSlots : Int
  totalSlots : Int
  /-- The types of either snapshot. -/
  objectsByType : Std.TreeMap String Int
  /-- Types of the later snapshot only. -/
  newTypes : List String
  /-- Types of the earlier snapshot only. -/
  removedTypes : List String
  violations : Int
  /-- Present only if both snapshots have the count. -/
  trackerAllocations : Option Int
  trackerMemory : Option Int

namespace Snapshot

/-- The deltas of all types of two snapshots. -/
def typeDeltas (before after : Std.TreeMap String Nat) : Std.TreeMap String Int :=
  (before.keys ++ after.keys).foldl
    (fun deltas name => deltas.insert name (delta (before.getD name 0) (after.getD name 0))) {}

/-- The difference from `before` to `after`. -/
def diff (before after : Snapshot) : Diff where
  liveObjects := delta before.liveObjects after.liveObjects
  parkedBlocks := delta before.parkedBlocks after.parkedBlocks
  vacantSlots := delta before.vacantSlots after.vacantSlots
  totalSlots := delta before.totalSlots after.totalSlots
  objectsByType := typeDeltas before.objectsByType after.objectsByType
  newTypes := after.objectsByType.keys.filter (!before.objectsByType.contains ·)
  removedTypes := before.objectsByType.keys.filter (!after.objectsByType.contains ·)
  violations := delta before.violations after.violations
  trackerAllocations := delta? before.trackerAllocations after.trackerAllocations
  trackerMemory := delta? before.trackerMemory after.trackerMemory

end Snapshot

namespace Diff

variable (d : Diff)

/-- Nothing changed. -/
def isEmpty : Bool :=
  d.liveObjects == 0 && d.parkedBlocks == 0 && d.vacantSlots == 0 && d.totalSlots == 0 &&
    d.violations == 0 && d.newTypes.isEmpty && d.removedTypes.isEmpty &&
    d.objectsByType.values.all (· == 0) && d.trackerAllocations.all (· == 0) &&
    d.trackerMemory.all (· == 0)

/-- The number of live objects of each type is unchanged; slots and parked blocks may differ. -/
def isLeakFree : Bool :=
  d.liveObjects == 0 && d.newTypes.isEmpty && d.objectsByType.values.all (· == 0)

/-- The lines of a difference: totals, types that changed, types that came and went, violations. -/
def lines : List String :=
  ["HeapDiff: " ++ signed d.liveObjects ++ " live objects, " ++ signed d.parkedBlocks ++ " pooled, " ++
    signed d.totalSlots ++ " slots"] ++
  (d.objectsByType.toList.filter (·.2 ≠ 0)).map (fun p => "  " ++ p.1 ++ ": " ++ signed p.2) ++
  (if d.newTypes.isEmpty then [] else ["  New types: " ++ String.intercalate ", " d.newTypes]) ++
  (if d.removedTypes.isEmpty then [] else ["  Removed types: " ++ String.intercalate ", " d.removedTypes]) ++
  (if d.violations = 0 then [] else ["  Invariant violations: " ++ signed d.violations])

def text : String :=
  if d.isEmpty then "HeapDiff: no changes" else String.intercalate "\n" d.lines

end Diff

end CountedHeap
