/-
# Handlers

A type supports an operator by a handler. Six shapes of handler exist (`Role`).
A handler is either one of the heap's own or the name of code that a host
supplies; `κ r` is the host's set of names for handlers of shape `r`. Since a
type holds names and not code, types and heaps are plain data.
-/
namespace CountedHeap

/-- The shapes of handlers. The first three consume their operands and give a new
reference; the others only look at them. -/
inductive Role where
  | unary
  | binary
  | ternary
  | truth
  | length
  | comparison
  deriving DecidableEq, Repr, Inhabited

/-- The handlers of the built-in types. -/
inductive Builtin : Role → Type where
  | shortNegative : Builtin .unary
  | shortPositive : Builtin .unary
  | shortAbsolute : Builtin .unary
  | shortAdd : Builtin .binary
  | shortSubtract : Builtin .binary
  | shortMultiply : Builtin .binary
  | shortRemainder : Builtin .binary
  | shortFloorDivide : Builtin .binary
  | tupleConcat : Builtin .binary
  | tupleSubscript : Builtin .binary
  | shortPower : Builtin .ternary
  | noneTruth : Builtin .truth
  | boolTruth : Builtin .truth
  | shortTruth : Builtin .truth
  | tupleLength : Builtin .length
  | boolEqual : Builtin .comparison
  | shortEqual : Builtin .comparison
  | shortLessOrEqual : Builtin .comparison
  | tupleEqual : Builtin .comparison
  deriving DecidableEq, Repr

/-- A handler of shape `r`. -/
inductive Handler (κ : Role → Type) (r : Role) where
  | builtin (b : Builtin r)
  | host (name : κ r)

end CountedHeap
