/-
# Objects and slots

What a slot of the arena can hold: nothing, a live object, or a parked block
that waits for an object of its size. A parked block carries the link to the
next one, so the free list of a size is threaded through the arena itself.
-/
import CountedHeap.Ref

namespace CountedHeap

/-- What an object holds. -/
inductive Payload where
  | none
  | bool (value : Bool)
  | short (value : Int32)
  | tuple (items : List Ref)
  /-- The number a host type attaches to its objects. -/
  | host (value : Int64)
  deriving DecidableEq, Repr, Inhabited

/-- The references an object owns, in order. -/
def Payload.children : Payload → List Ref
  | .tuple items => items
  | _ => []

/-- A live object: its header and its payload. -/
structure Object where
  refcount : Nat
  type : TypeId
  /-- Number of references the payload owns. -/
  length : Nat
  /-- Size of its block in bytes. -/
  size : Nat
  /-- An immortal object keeps its last reference. -/
  immortal : Bool
  payload : Payload
  deriving DecidableEq, Repr, Inhabited

/-- A place in the arena. -/
inductive Slot where
  | vacant
  | live (object : Object)
  /-- A parked block of `size` bytes; `next` continues the free list of that size. -/
  | parked (next : Option Ref) (size : Nat)
  deriving DecidableEq, Repr, Inhabited

namespace Slot

/-- The live object in a slot. -/
def object? : Slot → Option Object
  | .live o => some o
  | _ => none

/-- The references owned by what a slot holds. -/
def children : Slot → List Ref
  | .live o => o.payload.children
  | _ => []

end Slot

end CountedHeap
