/-
# The heap

Everything an operation can change: the store of slots, the ledger of blocks,
the registry of types, the tracer, the depth of recursion and the count of
releases that did not fit. Two heaps share nothing.

Operations run in `HeapM`, where a fault ends the run, or in `RunM`, where they
may also fail with a `RunError` and leave a heap behind.
-/
import CountedHeap.Event
import CountedHeap.Interned
import CountedHeap.Ledger
import CountedHeap.Registry
import CountedHeap.Store

namespace CountedHeap

structure Heap (κ : Role → Type) where
  store : Store
  ledger : Ledger
  interned : Interned
  types : Registry κ
  tracer : Tracer := {}
  depth : Nat := 0
  /-- Unchecked releases that were skipped. -/
  violations : Nat := 0

/-- Operations on a heap. -/
abbrev HeapM (κ : Role → Type) := StateT (Heap κ) (Except Fault)

/-- Operations on a heap that may fail. -/
abbrev RunM (κ : Role → Type) := ExceptT RunError (HeapM κ)

/-- Reading a heap, which may fail. -/
abbrev ReadM := ExceptT RunError (Except Fault)

namespace Heap

variable {κ : Role → Type}

/-- The heap that a configuration describes. Sizes listed twice are one class. -/
def ofConfig (c : Config) : Heap κ where
  store :=
    { slots := (Interned.mk c.internedRange).slots
      classes := c.pool.sizeClasses.eraseDups.map ({ size := · })
      classLimit := c.pool.maxPerClass }
  ledger := { tracker := .ofLimits c.limits }
  interned := ⟨c.internedRange⟩
  types := .builtin

variable (h : Heap κ)

def emit (e : Event) : Heap κ := { h with tracer := h.tracer.observe e }

/-- The live object a reference names. -/
def object? (r : Ref) : Option Object := h.store.object? r

/-- The object a reference names, which the caller takes to be live. -/
def get (r : Ref) : Except Fault Object :=
  match h.object? r with
  | some o => .ok o
  | none => .error .deadObject

def typeOf (r : Ref) : Except Fault (Descriptor κ) := do
  let o ← h.get r
  h.types.get o.type

def typeName (r : Ref) : Except Fault String := do
  let d ← h.typeOf r
  return d.name

/-- The value of a short. -/
def shortValue (op : String) (a : Ref) : ReadM Int32 := do
  let o ← h.get a
  match o.payload with
  | .short v => return v
  | _ => throw (.typeMismatch op "short" (← h.typeName a))

/-- The items of a tuple. -/
def tupleItems (op : String) (a : Ref) : ReadM (List Ref) := do
  let o ← h.get a
  match o.payload with
  | .tuple items => return items
  | _ => throw (.typeMismatch op "tuple" (← h.typeName a))

/-- The item of a tuple at an index, counted from the end if it is negative. -/
def tupleItem (op : String) (a : Ref) (index : Int) : ReadM Ref := do
  let items ← h.tupleItems op a
  let position := if index < 0 then index + items.length else index
  if position < 0 then throw (.invalidOperand op "tuple index out of range")
  match items[position.toNat]? with
  | some r => return r
  | none => throw (.invalidOperand op "tuple index out of range")

/-- Adds a reference to a live object. -/
def acquire (r : Ref) : Except Fault (Heap κ) :=
  match h.object? r with
  | some o => .ok { h with store := h.store.put r (.live { o with refcount := o.refcount + 1 }) }
  | none => .error (.notLive r)

/-- Enters one level of recursion, if the tracker allows it. -/
def enterRecursion : Except Exhaustion (Heap κ) :=
  match h.ledger.tracker.checkDepth h.depth with
  | .ok () => .ok { h with depth := h.depth + 1 }
  | .error e => .error e

/-- Leaves a level; the outermost stays where it is. -/
def leaveRecursion : Heap κ := { h with depth := h.depth - 1 }

/-- Replaces the tracker. Blocks held so far are not charged to the new one. -/
def withTracker (t : Tracker) : Heap κ := { h with ledger := { h.ledger with tracker := t } }

/-- Replaces the tracer by an empty one. -/
def withSink (sink : Sink) : Heap κ := { h with tracer := { sink := sink } }

end Heap

end CountedHeap
