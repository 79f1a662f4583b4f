/-
# Interned objects

The objects a heap holds from the start: `None`, the two truth values and the
shorts of a range, in that order from slot 0 on. They are immortal, and a short
of the range is always this one object.
-/
import CountedHeap.Config
import CountedHeap.Object

namespace CountedHeap

/-- The range of interned shorts. -/
structure Interned where
  shorts : ShortRange
  deriving DecidableEq, Repr, Inhabited

namespace Interned

def none : Ref := ⟨0⟩

def bool : Bool → Ref
  | false => ⟨1⟩
  | true => ⟨2⟩

/-- The slot of the first interned short. -/
def firstShort : Nat := 3

/-- The interned object for a short, if it is in the range. -/
def short? (i : Interned) (v : Int32) : Option Ref :=
  if i.shorts.start ≤ v ∧ v < i.shorts.stop then
    some ⟨firstShort + (v.toInt - i.shorts.start.toInt).toNat⟩
  else Option.none

/-- Number of interned objects. -/
def count (i : Interned) : Nat := firstShort + i.shorts.count

/-- An object that the heap itself holds one reference to. The three types of
interned objects all have blocks of 16 bytes. -/
def immortal (type : TypeId) (payload : Payload) : Slot :=
  .live { refcount := 1, type, length := 0, size := 16, immortal := true, payload }

/-- The slots of the interned objects. -/
def slots (i : Interned) : Array Slot :=
  #[immortal .none .none, immortal .bool (.bool false), immortal .bool (.bool true)] ++
    (Array.range i.shorts.count).map fun n =>
      immortal .short (.short (Int32.ofInt (i.shorts.start.toInt + Int.ofNat n)))

end Interned

end CountedHeap
