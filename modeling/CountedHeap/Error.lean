/-
# What can go wrong

Three kinds of failure, kept apart. A `RunError` is an answer: the operation
gives it back and the heap goes on. An `Inconsistency` is a release that does
not fit the heap's books; the unchecked release skips and counts it, the checked
one answers with it. A `Fault` aborts the computation, and no heap survives it.
-/
import CountedHeap.Ref

namespace CountedHeap

/-- A limit that an operation would exceed. -/
inductive Exhaustion where
  | allocations (limit count : Nat)
  | memory (limit used : Nat)
  | recursion (limit depth : Nat)
  deriving DecidableEq, Repr, Inhabited

/-- The depth of a refused recursion is not part of the text. -/
def Exhaustion.message : Exhaustion → String
  | .allocations limit count =>
    "allocation limit exceeded: " ++ toString count ++ " > " ++ toString limit
  | .memory limit used =>
    "memory limit exceeded: " ++ toString used ++ " bytes > " ++ toString limit ++ " bytes"
  | .recursion _ _ => "maximum recursion depth exceeded"

/-- Why a reference cannot be given back. -/
inductive Inconsistency where
  /-- No slot has this index. -/
  | unknown (r : Ref)
  /-- The slot is vacant. -/
  | freed (r : Ref)
  /-- The slot holds a parked block. -/
  | parked (r : Ref)
  /-- The last reference of an immortal object. -/
  | immortal (r : Ref) (typeName : String)
  deriving DecidableEq, Repr, Inhabited

def Inconsistency.message : Inconsistency → String
  | .unknown r => "no object at " ++ r.text
  | .freed r => "object " ++ r.text ++ " already freed"
  | .parked r => "object " ++ r.text ++ " is a pooled free-list node"
  | .immortal r typeName =>
    "immortal " ++ typeName ++ " object " ++ r.text ++ " released past its last reference"

/-- An operation's failure. `op` names the operation as its user wrote it. -/
inductive RunError where
  /-- No operand's type has the operator. -/
  | unsupported (op : String) (operandTypes : List String)
  | typeMismatch (op expected found : String)
  | overflow (op : String)
  | zeroDivision (op : String)
  /-- An operand of the right type with a value the operation does not take. -/
  | invalidOperand (op reason : String)
  | exhausted (cause : Exhaustion)
  | inconsistent (cause : Inconsistency)
  deriving DecidableEq, Repr, Inhabited

namespace RunError

/-- The class of an error, in one word. -/
def kind : RunError → String
  | .unsupported _ _ => "NotImplemented"
  | .typeMismatch _ _ _ => "TypeMismatch"
  | .overflow _ => "Overflow"
  | .zeroDivision _ => "ZeroDivision"
  | .invalidOperand _ _ => "InvalidOperand"
  | .exhausted _ => "Resource"
  | .inconsistent _ => "Invariant"

def message : RunError → String
  | .unsupported op types =>
    "unsupported operand type(s) for " ++ op ++ ": " ++
      String.intercalate ", " (types.map fun t => "'" ++ t ++ "'")
  | .typeMismatch op expected found =>
    op ++ " expected '" ++ expected ++ "' operand, got '" ++ found ++ "'"
  | .overflow op => "integer overflow in " ++ op
  | .zeroDivision op => "division by zero in " ++ op
  | .invalidOperand op reason => op ++ ": " ++ reason
  | .exhausted cause => cause.message
  | .inconsistent cause => "invariant violation: " ++ cause.message

/-- Only an exhausted limit is an error in its own right beneath a `RunError`. -/
def cause? : RunError → Option Exhaustion
  | .exhausted cause => some cause
  | _ => none

end RunError

/-- A broken promise of the caller, or of the machine, that ends the run. -/
inductive Fault where
  /-- A read through a reference to no live object. -/
  | deadObject
  /-- A new reference to no live object. -/
  | notLive (r : Ref)
  | unknownType
  /-- The registry has no index left for another type. -/
  | registryFull
  /-- The head of a free list is not a parked block. -/
  | brokenPool (r : Ref)
  /-- Handlers called each other deeper than the native stack reaches. -/
  | stackOverflow
  deriving DecidableEq, Repr, Inhabited

def Fault.message : Fault → String
  | .deadObject => "Heap::get: ObjRef points at a dead object"
  | .notLive r => "Heap::inc_ref: object " ++ r.text ++ " is not live"
  | .unknownType => "TypeRegistry::get: unknown type id"
  | .registryFull => "type registry overflow"
  | .brokenPool r => "SizeClassPools::pop: pool head " ++ r.text ++ " is not a pooled node"
  | .stackOverflow => "stack overflow"

end CountedHeap
