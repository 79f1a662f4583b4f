/-
# Operators

The operators that types can support, with the symbol that errors and traces
show for each.
-/
namespace CountedHeap

inductive UnaryOp where
  | negative
  | positive
  | absolute
  | invert
  deriving DecidableEq, Repr, Inhabited

inductive BinaryOp where
  | add
  | subtract
  | multiply
  | remainder
  | floorDivide
  | trueDivide
  | shiftLeft
  | shiftRight
  | bitAnd
  | bitXor
  | bitOr
  | concat
  | subscript
  deriving DecidableEq, Repr, Inhabited

inductive CompareOp where
  | equal
  | lessOrEqual
  deriving DecidableEq, Repr, Inhabited

def UnaryOp.symbol : UnaryOp → String
  | .negative => "unary -"
  | .positive => "unary +"
  | .absolute => "abs()"
  | .invert => "~"

def BinaryOp.symbol : BinaryOp → String
  | .add => "+"
  | .subtract => "-"
  | .multiply => "*"
  | .remainder => "%"
  | .floorDivide => "//"
  | .trueDivide => "/"
  | .shiftLeft => "<<"
  | .shiftRight => ">>"
  | .bitAnd => "&"
  | .bitXor => "^"
  | .bitOr => "|"
  | .concat => "concat"
  | .subscript => "[]"

def CompareOp.symbol : CompareOp → String
  | .equal => "=="
  | .lessOrEqual => "<="

/-- Power is the one operator of three operands; without a modulus the third is `None`. -/
def powerSymbol : String := "** or pow()"

/-- The name of the length query in errors. -/
def lengthSymbol : String := "len()"

end CountedHeap
