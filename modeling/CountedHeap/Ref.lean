/-
# References and type ids

A reference is the index of a slot and nothing more. It says neither which heap
made it nor whether the slot still holds the object it was made for, so what an
operation does with a stale reference is part of its meaning.
-/
namespace CountedHeap

/-- A reference: the index of a slot. -/
structure Ref where
  index : Nat
  deriving DecidableEq, Repr, Inhabited

/-- The written form, `#` and the index. -/
def Ref.text (r : Ref) : String := "#" ++ toString r.index

/-- The index of a type in a heap's registry. -/
structure TypeId where
  index : Nat
  deriving DecidableEq, Repr, Inhabited

namespace TypeId

/-- The type of the one value `None`. -/
def none : TypeId := ⟨0⟩

/-- The type of the two truth values. -/
def bool : TypeId := ⟨1⟩

/-- The type of 32-bit integers. -/
def short : TypeId := ⟨2⟩

/-- The type of tuples. -/
def tuple : TypeId := ⟨3⟩

/-- The four types every heap registers itself come first. -/
def isBuiltin (t : TypeId) : Bool := t.index ≤ tuple.index

end TypeId

end CountedHeap
