/-
# Stock handlers for host types

A small catalogue of handlers with which a host can try out types of its own:
some pass operands on, some build tuples, some compute with the numbers attached
to host objects, some fail, and some call operators again.
-/
import CountedHeap.Dispatch

namespace CountedHeap
namespace Stock

inductive Unary where
  | identity
  | box
  | dup
  | none
  | fail
  deriving DecidableEq, Repr, Inhabited

inductive Binary where
  | pair
  | keepLeft
  | keepRight
  | fail
  | sum
  | swapSubtract
  | recurseAdd
  deriving DecidableEq, Repr, Inhabited

inductive Ternary where
  | triple
  | keepFirst
  | keepThird
  | fail
  deriving DecidableEq, Repr, Inhabited

inductive Truth where
  | always
  | never
  | payloadNonzero
  deriving DecidableEq, Repr, Inhabited

inductive Length where
  | zero
  | three
  | payload
  deriving DecidableEq, Repr, Inhabited

inductive Comparison where
  | always
  | never
  | fail
  | payloadEqual
  | payloadLessOrEqual
  | sameTruth
  | asEqual
  deriving DecidableEq, Repr, Inhabited

/-- The names of stock handlers, by shape. -/
abbrev Name : Role → Type
  | .unary => Unary
  | .binary => Binary
  | .ternary => Ternary
  | .truth => Truth
  | .length => Length
  | .comparison => Comparison

/-- The error of the handlers that always fail. -/
def failure : RunError := .invalidOperand "host" "host failure"

/-- The error of an object without a number attached. -/
def noPayload (typeName : String) : RunError := .typeMismatch "host" "opaque" typeName

variable {κ : Role → Type}

/-- The number attached to a host object. -/
def payload (a : Ref) : Routine κ Int64 := do
  let o ← Routine.object a
  match o.payload with
  | .host n => return n
  | _ => throw (noPayload (← Routine.typeName a))

def unary : Unary → Ref → Routine κ Ref
  | .identity, a => return a
  | .box, a => Routine.tuple [a]
  | .dup, a => do
    let b ← Routine.acquire a
    Routine.tuple [a, b]
  | .none, a => do
    Routine.release a
    Routine.none
  | .fail, a => do
    Routine.release a
    throw failure

/-- The sum of the attached numbers wraps around in 64 bits. -/
def binary : Binary → Ref → Ref → Routine κ Ref
  | .pair, a, b => Routine.tuple [a, b]
  | .keepLeft, a, b => do
    Routine.release b
    return a
  | .keepRight, a, b => do
    Routine.release a
    return b
  | .fail, a, b => do
    Routine.releaseAll [a, b]
    throw failure
  | .sum, a, b => Routine.consuming [a, b] do
    let x ← payload a
    let y ← payload b
    match Word.ofInt? (x + y).toInt with
    | some n => Routine.short n
    | Option.none => throw (.overflow "host")
  | .swapSubtract, a, b => Routine.binary .subtract b a
  | .recurseAdd, a, b => Routine.recursing [a, b] (Routine.binary .add b a)

def ternary : Ternary → Ref → Ref → Ref → Routine κ Ref
  | .triple, a, b, c => Routine.tuple [a, b, c]
  | .keepFirst, a, b, c => do
    Routine.releaseAll [b, c]
    return a
  | .keepThird, a, b, c => do
    Routine.releaseAll [a, b]
    return c
  | .fail, a, b, c => do
    Routine.releaseAll [a, b, c]
    throw failure

/-- The number attached to an object, if there is one. -/
def payload? (a : Ref) : Inspection (Option Int64) := do
  let o ← Inspection.ask (.object a)
  match o.payload with
  | .host n => return some n
  | _ => return Option.none

def truth : Truth → Ref → Inspection Bool
  | .always, _ => return true
  | .never, _ => return false
  | .payloadNonzero, a => return (← payload? a).any (· ≠ 0)

/-- A negative number is no length. -/
def length : Length → Ref → Inspection Nat
  | .zero, _ => return 0
  | .three, _ => return 3
  | .payload, a => return (← payload? a).elim 0 (·.toInt.toNat)

/-- The number attached to a host object. -/
def judgePayload (a : Ref) : Judgement Int64 := do
  match ← Judgement.sure (payload? a) with
  | some n => return n
  | Option.none => throw (noPayload (← Judgement.typeName a))

def comparison : Comparison → Ref → Ref → Judgement Bool
  | .always, _, _ => return true
  | .never, _, _ => return false
  | .fail, _, _ => throw failure
  | .payloadEqual, a, b => do
    let x ← judgePayload a
    let y ← judgePayload b
    return x == y
  | .payloadLessOrEqual, a, b => do
    let x ← judgePayload a
    let y ← judgePayload b
    return decide (x ≤ y)
  | .sameTruth, a, b => do
    let x ← Judgement.isTrue a
    let y ← Judgement.isTrue b
    return x == y
  | .asEqual, a, b => Judgement.compare .equal b a

/-- The host that offers the stock handlers. -/
def host (frames : Nat) : Host Name where
  unary := unary
  binary := binary
  ternary := ternary
  truth := truth
  length := length
  comparison := comparison
  frames := frames

end Stock
end CountedHeap
