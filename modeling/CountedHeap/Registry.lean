/-
# The registry of types

Types are numbered in the order of their registration, and the four built-in
types come first. Names need not be unique; a look-up by name finds the type
registered last.
-/
import CountedHeap.Descriptor
import CountedHeap.Error

namespace CountedHeap

structure Registry (κ : Role → Type) where
  types : Array (Descriptor κ)

namespace Registry

variable {κ : Role → Type}

/-- Type ids are 16-bit numbers. -/
def capacity : Nat := 65536

def noneType : Descriptor κ where
  name := "NoneType"
  basicSize := 16
  number := some { truth := some (.builtin .noneTruth) }

def boolType : Descriptor κ where
  name := "bool"
  basicSize := 16
  number := some { truth := some (.builtin .boolTruth) }
  equal := some (.builtin .boolEqual)

/-- The only built-in type whose blocks are parked. -/
def shortType : Descriptor κ where
  name := "short"
  basicSize := 16
  pooled := true
  number := some
    { add := some (.builtin .shortAdd)
      subtract := some (.builtin .shortSubtract)
      multiply := some (.builtin .shortMultiply)
      remainder := some (.builtin .shortRemainder)
      floorDivide := some (.builtin .shortFloorDivide)
      power := some (.builtin .shortPower)
      negative := some (.builtin .shortNegative)
      positive := some (.builtin .shortPositive)
      absolute := some (.builtin .shortAbsolute)
      truth := some (.builtin .shortTruth) }
  equal := some (.builtin .shortEqual)
  lessOrEqual := some (.builtin .shortLessOrEqual)

def tupleType : Descriptor κ where
  name := "tuple"
  basicSize := 24
  itemSize := 8
  sequence := some { length := some (.builtin .tupleLength), concat := some (.builtin .tupleConcat) }
  mapping := some { length := some (.builtin .tupleLength), subscript := some (.builtin .tupleSubscript) }
  equal := some (.builtin .tupleEqual)

/-- What every heap starts with. -/
def builtin : Registry κ := ⟨#[noneType, boolType, shortType, tupleType]⟩

variable (g : Registry κ)

def get? (t : TypeId) : Option (Descriptor κ) := g.types[t.index]?

def contains (t : TypeId) : Bool := t.index < g.types.size

/-- The descriptor of a type, which the caller takes to be registered. -/
def get (t : TypeId) : Except Fault (Descriptor κ) :=
  match g.get? t with
  | some d => .ok d
  | none => .error .unknownType

/-- The name of a type, empty for an id that is not registered. -/
def nameOf (t : TypeId) : String := (g.get? t).elim "" (·.name)

/-- Whether blocks of a type may be parked. -/
def parks (t : TypeId) : Bool := (g.get? t).elim false (·.pooled)

/-- Adds a type under the next id. -/
def register (d : Descriptor κ) : Except Fault (TypeId × Registry κ) :=
  if g.types.size < capacity then .ok (⟨g.types.size⟩, ⟨g.types.push d⟩) else .error .registryFull

/-- The last type registered under a name. -/
def findName? (name : String) : Option TypeId :=
  (List.range g.types.size).reverse.findSome? fun i =>
    if (g.nameOf ⟨i⟩) = name then some ⟨i⟩ else none

end Registry

end CountedHeap
