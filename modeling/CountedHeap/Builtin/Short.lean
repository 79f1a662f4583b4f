/-
# Handlers of shorts

Checked arithmetic on 32-bit integers. A handler may be reached through either
operand, so it looks at the types of both; its operands are given back after the
result has been made, on every path.
-/
import CountedHeap.Heap.Allocate

namespace CountedHeap
namespace Heap
namespace Short

variable {κ : Role → Type}

def value (op : String) (a : Ref) : RunM κ Int32 := reading (·.shortValue op a)

/-- The value of a checked operation. -/
def checked (op : String) : Option Int32 → RunM κ Int32
  | some v => return v
  | Option.none => throw (.overflow op)

def unary (op : UnaryOp) (f : Int32 → Option Int32) (a : Ref) : RunM κ Ref :=
  consuming [a] do
    let x ← value op.symbol a
    short (← checked op.symbol (f x))

def arithmetic (op : BinaryOp) (f : Int32 → Int32 → Option Int32) (a b : Ref) : RunM κ Ref :=
  consuming [a, b] do
    let x ← value op.symbol a
    let y ← value op.symbol b
    short (← checked op.symbol (f x y))

def division (op : BinaryOp) (f : Int32 → Int32 → Option Int32) (a b : Ref) : RunM κ Ref :=
  consuming [a, b] do
    let x ← value op.symbol a
    let y ← value op.symbol b
    if y = 0 then throw (.zeroDivision op.symbol)
    short (← checked op.symbol (f x y))

/-- `a ^ b`, modulo `c` unless `c` is `None`. -/
def power (a b c : Ref) : RunM κ Ref :=
  consuming [a, b, c] do
    let x ← value powerSymbol a
    let e ← value powerSymbol b
    if e < 0 then throw (.invalidOperand powerSymbol "negative exponent")
    let modulus ← reading (·.get c)
    if modulus.type = .none then
      short (← checked powerSymbol (Word.pow? x e.toInt.toNat))
    else
      let m ← value powerSymbol c
      if m = 0 then throw (.invalidOperand powerSymbol "modulus cannot be zero")
      short (Word.powMod x e.toInt.toNat m)

end Short

variable {κ : Role → Type} (h : Heap κ)

/-- The value of an object that may be something else. -/
def shortValue? (a : Ref) : Except Fault (Option Int32) := do
  let o ← h.get a
  match o.payload with
  | .short v => return some v
  | _ => return Option.none

/-- A short is true unless it is 0; another object is not. -/
def shortTruth (a : Ref) : Except Fault Bool := do
  let x ← h.shortValue? a
  return x.any (· ≠ 0)

/-- A short equals only a short of the same value. -/
def shortEqual (a b : Ref) : Except Fault Bool := do
  let x ← h.shortValue? a
  let y ← h.shortValue? b
  return x.isSome && x == y

def shortLessOrEqual (a b : Ref) : ReadM Bool := do
  let x ← h.shortValue CompareOp.lessOrEqual.symbol a
  let y ← h.shortValue CompareOp.lessOrEqual.symbol b
  return decide (x ≤ y)

/-- The value of an object that may be something else. -/
def boolValue? (a : Ref) : Except Fault (Option Bool) := do
  let o ← h.get a
  match o.payload with
  | .bool v => return some v
  | _ => return Option.none

/-- A truth value is its own truth; another object is true. -/
def boolTruth (a : Ref) : Except Fault Bool := do
  let x ← h.boolValue? a
  return x.getD true

/-- A truth value equals only the same truth value. -/
def boolEqual (a b : Ref) : Except Fault Bool := do
  let x ← h.boolValue? a
  let y ← h.boolValue? b
  return x.isSome && x == y

end Heap
end CountedHeap
