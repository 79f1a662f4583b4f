/-
# Making objects

A new object takes a parked block of its size if there is one. Otherwise a fresh
block is charged to the tracker and placed in the slot vacated last, or in a new
slot. A payload that owns references hands them over: if the block is refused
they are given back.
-/
import CountedHeap.Heap.Release

namespace CountedHeap
namespace Heap

variable {κ : Role → Type}

/-- A block of `size` bytes for an object of a type called `name`, unless the
tracker refuses it. -/
def takeBlock (h : Heap κ) (name : String) (size : Nat) : Except Fault (Except Exhaustion Ref × Heap κ) := do
  match ← h.store.takeParked size with
  | some (r, store) => return (.ok r, { h with store := store }.emit (.reuse r name size))
  | none =>
    match h.ledger.allocate size with
    | .error e => return (.error e, h)
    | .ok ledger =>
      let r := h.store.freshRef
      return (.ok r, { h with store := h.store.takeFresh, ledger := ledger }.emit (.allocate r name size))

/-- A new object with one reference. -/
def construct (type : TypeId) (payload : Payload) : RunM κ Ref := fun h => do
  let d ← h.types.get type
  let length := payload.children.length
  let size := d.blockSize length
  match ← h.takeBlock d.name size with
  | (.error e, h) => return (.error (.exhausted e), h.releaseAll payload.children)
  | (.ok r, h) =>
    return (.ok r, h.setSlot r (.live { refcount := 1, type, length, size, immortal := false, payload }))

/-- A new reference. -/
def newRef (r : Ref) : HeapM κ Ref := fun h => do
  let h ← h.acquire r
  return (r, h)

/-- A new reference to an interned object. -/
def hit (r : Ref) : HeapM κ Ref := fun h => newRef r (h.emit (.hit r))

def none : HeapM κ Ref := hit Interned.none

def bool (value : Bool) : HeapM κ Ref := hit (Interned.bool value)

/-- The interned short, or a new one if the value is not in the range. -/
def short (value : Int32) : RunM κ Ref := fun h =>
  match h.interned.short? value with
  | some r => (ExceptT.lift (hit r) : RunM κ Ref) h
  | Option.none => construct .short (.short value) h

/-- A tuple that takes over the references to its items. -/
def tuple (items : List Ref) : RunM κ Ref := construct .tuple (.tuple items)

/-- An object of a host's type. Objects of the built-in types are made by their
own operations only. -/
def allocate (type : TypeId) (payload : Int64) : RunM κ Ref := fun h =>
  if type.isBuiltin || !h.types.contains type then
    return (.error (.invalidOperand "allocate" "not a host-registered type"), h)
  else construct type (.host payload) h

/-- Reads the heap. -/
def reading {α : Type} (f : Heap κ → ReadM α) : RunM κ α := fun h => do
  let result ← f h
  return (result, h)

/-- A new reference to an item of a tuple that stays with the caller. -/
def item (op : String) (a : Ref) (index : Int) : RunM κ Ref := do
  let r ← reading (·.tupleItem op a index)
  ExceptT.lift (newRef r)

/-- `body`, after which the references are given back from left to right. -/
def consuming {α : Type} (refs : List Ref) (body : RunM κ α) : RunM κ α := fun h => do
  let (result, h) ← body h
  return (result, h.releaseAll refs)

end Heap
end CountedHeap
