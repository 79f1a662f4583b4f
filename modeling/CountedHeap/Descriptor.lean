/-
# Type descriptors

A type has a name, the layout of its blocks, three optional tables of handlers
(number, sequence, mapping) and two comparisons. A table may be present and
empty: the operators then find nothing in it, but the type still has it.
-/
import CountedHeap.Handler
import CountedHeap.Operator

namespace CountedHeap

structure NumberTable (κ : Role → Type) where
  add : Option (Handler κ .binary) := none
  subtract : Option (Handler κ .binary) := none
  multiply : Option (Handler κ .binary) := none
  remainder : Option (Handler κ .binary) := none
  floorDivide : Option (Handler κ .binary) := none
  trueDivide : Option (Handler κ .binary) := none
  shiftLeft : Option (Handler κ .binary) := none
  shiftRight : Option (Handler κ .binary) := none
  bitAnd : Option (Handler κ .binary) := none
  bitXor : Option (Handler κ .binary) := none
  bitOr : Option (Handler κ .binary) := none
  power : Option (Handler κ .ternary) := none
  negative : Option (Handler κ .unary) := none
  positive : Option (Handler κ .unary) := none
  absolute : Option (Handler κ .unary) := none
  invert : Option (Handler κ .unary) := none
  truth : Option (Handler κ .truth) := none

structure SequenceTable (κ : Role → Type) where
  length : Option (Handler κ .length) := none
  concat : Option (Handler κ .binary) := none

structure MappingTable (κ : Role → Type) where
  length : Option (Handler κ .length) := none
  subscript : Option (Handler κ .binary) := none

structure Descriptor (κ : Role → Type) where
  name : String
  /-- Bytes of the fixed part of a block. -/
  basicSize : Nat
  /-- Bytes for each reference an object owns. -/
  itemSize : Nat := 0
  /-- Whether the blocks of dead objects may be parked. -/
  pooled : Bool := false
  number : Option (NumberTable κ) := none
  sequence : Option (SequenceTable κ) := none
  mapping : Option (MappingTable κ) := none
  equal : Option (Handler κ .comparison) := none
  lessOrEqual : Option (Handler κ .comparison) := none

/-- A place in a descriptor where a handler can stand. -/
inductive Capability where
  | unary (op : UnaryOp)
  | binary (op : BinaryOp)
  | power
  | truth
  | sequenceLength
  | mappingLength
  | comparison (op : CompareOp)
  deriving DecidableEq, Repr, Inhabited

namespace Capability

/-- The shape of the handlers that fit a place. -/
def role : Capability → Role
  | .unary _ => .unary
  | .binary _ => .binary
  | .power => .ternary
  | .truth => .truth
  | .sequenceLength | .mappingLength => .length
  | .comparison _ => .comparison

/-- All places, in the order in which they are listed. -/
def all : List Capability :=
  [.binary .add, .binary .subtract, .binary .multiply, .binary .remainder, .binary .floorDivide,
    .binary .trueDivide, .binary .shiftLeft, .binary .shiftRight, .binary .bitAnd, .binary .bitXor,
    .binary .bitOr, .power, .unary .negative, .unary .positive, .unary .absolute, .unary .invert,
    .truth, .sequenceLength, .binary .concat, .mappingLength, .binary .subscript,
    .comparison .equal, .comparison .lessOrEqual]

/-- The written name of a place, its table first. -/
def text : Capability → String
  | .unary .negative => "number.negative"
  | .unary .positive => "number.positive"
  | .unary .absolute => "number.absolute"
  | .unary .invert => "number.invert"
  | .binary .add => "number.add"
  | .binary .subtract => "number.subtract"
  | .binary .multiply => "number.multiply"
  | .binary .remainder => "number.remainder"
  | .binary .floorDivide => "number.floor_divide"
  | .binary .trueDivide => "number.true_divide"
  | .binary .shiftLeft => "number.lshift"
  | .binary .shiftRight => "number.rshift"
  | .binary .bitAnd => "number.and"
  | .binary .bitXor => "number.xor"
  | .binary .bitOr => "number.or"
  | .power => "number.power"
  | .truth => "number.bool"
  | .sequenceLength => "sequence.length"
  | .binary .concat => "sequence.concat"
  | .mappingLength => "mapping.length"
  | .binary .subscript => "mapping.subscript"
  | .comparison .equal => "equal"
  | .comparison .lessOrEqual => "less_or_equal"

/-- The place with a written name. -/
def ofText? (name : String) : Option Capability := all.find? (·.text == name)

end Capability

namespace Descriptor

variable {κ : Role → Type} (d : Descriptor κ)

/-- Size of the block of an object that owns `length` references. -/
def blockSize (length : Nat) : Nat := d.basicSize + d.itemSize * length

def unary? : UnaryOp → Option (Handler κ .unary)
  | .negative => d.number.bind (·.negative)
  | .positive => d.number.bind (·.positive)
  | .absolute => d.number.bind (·.absolute)
  | .invert => d.number.bind (·.invert)

def binary? : BinaryOp → Option (Handler κ .binary)
  | .add => d.number.bind (·.add)
  | .subtract => d.number.bind (·.subtract)
  | .multiply => d.number.bind (·.multiply)
  | .remainder => d.number.bind (·.remainder)
  | .floorDivide => d.number.bind (·.floorDivide)
  | .trueDivide => d.number.bind (·.trueDivide)
  | .shiftLeft => d.number.bind (·.shiftLeft)
  | .shiftRight => d.number.bind (·.shiftRight)
  | .bitAnd => d.number.bind (·.bitAnd)
  | .bitXor => d.number.bind (·.bitXor)
  | .bitOr => d.number.bind (·.bitOr)
  | .concat => d.sequence.bind (·.concat)
  | .subscript => d.mapping.bind (·.subscript)

def power? : Option (Handler κ .ternary) := d.number.bind (·.power)

def truth? : Option (Handler κ .truth) := d.number.bind (·.truth)

def sequenceLength? : Option (Handler κ .length) := d.sequence.bind (·.length)

def mappingLength? : Option (Handler κ .length) := d.mapping.bind (·.length)

def comparison? : CompareOp → Option (Handler κ .comparison)
  | .equal => d.equal
  | .lessOrEqual => d.lessOrEqual

/-- The handler that stands in a place. -/
def handler? : (c : Capability) → Option (Handler κ c.role)
  | .unary op => d.unary? op
  | .binary op => d.binary? op
  | .power => d.power?
  | .truth => d.truth?
  | .sequenceLength => d.sequenceLength?
  | .mappingLength => d.mappingLength?
  | .comparison op => d.comparison? op

/-- The places that are filled. -/
def filled : List Capability := Capability.all.filter fun c => (d.handler? c).isSome

end Descriptor

end CountedHeap
