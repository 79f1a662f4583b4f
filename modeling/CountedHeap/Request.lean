/-
# Requests

The public operations of a heap, as data. A `Query` only looks; a `Request` may
change the heap. The same requests serve a heap's user and the code of handlers,
so code can be run on a heap without knowing how the heap is made.
-/
import CountedHeap.Code
import CountedHeap.Descriptor
import CountedHeap.Error
import CountedHeap.Object

namespace CountedHeap

/-- What can be asked of references that stay with the asker. -/
inductive Query where
  /-- Header and payload. -/
  | object (a : Ref)
  | typeName (a : Ref)
  | isTrue (a : Ref)
  | length (a : Ref)
  | compare (op : CompareOp) (a b : Ref)
  deriving DecidableEq, Repr, Inhabited

@[reducible] def Query.Answer : Query → Type
  | .object _ => Object
  | .typeName _ => String
  | .isTrue _ => Bool
  | .length _ => Except RunError Nat
  | .compare _ _ _ => Except RunError Bool

/-- What can be asked of a heap. Requests consume the references they are given,
except `item`, `acquire` and `inspect`. -/
inductive Request (κ : Role → Type) where
  | none
  | bool (value : Bool)
  | short (value : Int32)
  /-- A new object of a host's type. -/
  | allocate (type : TypeId) (payload : Int64)
  | tuple (items : List Ref)
  /-- A new reference to an item of a tuple; a negative index counts from the end. -/
  | item (a : Ref) (index : Int)
  | acquire (a : Ref)
  /-- Gives a reference back; an inconsistency is skipped and counted. -/
  | release (a : Ref)
  /-- Gives a reference back; an inconsistency is the answer. -/
  | tryRelease (a : Ref)
  | unary (op : UnaryOp) (a : Ref)
  | binary (op : BinaryOp) (a b : Ref)
  | power (a b c : Ref)
  | compare (op : CompareOp) (a b : Ref)
  | fib (a : Ref)
  | register (d : Descriptor κ)
  | enterRecursion
  | leaveRecursion
  | inspect (q : Query)

@[reducible] def Request.Answer {κ : Role → Type} : Request κ → Type
  | .none | .bool _ | .acquire _ => Ref
  | .short _ | .allocate _ _ | .tuple _ | .item _ _ => Except RunError Ref
  | .unary _ _ | .binary _ _ _ | .power _ _ _ | .fib _ => Except RunError Ref
  | .release _ | .leaveRecursion => Unit
  | .tryRelease _ | .enterRecursion => Except RunError Unit
  | .compare _ _ _ => Except RunError Bool
  | .register _ => TypeId
  | .inspect q => q.Answer

/-- Code that only looks. -/
abbrev Inspection := Code Query Query.Answer

/-- Code that may use every request. -/
abbrev Procedure (κ : Role → Type) := Code (Request κ) Request.Answer

/-- A procedure that may fail. -/
abbrev Routine (κ : Role → Type) := ExceptT RunError (Procedure κ)

/-- An inspection that may fail. -/
abbrev Judgement := ExceptT RunError Inspection

/-- One request. -/
def Procedure.ask {κ : Role → Type} (r : Request κ) : Procedure κ r.Answer := Code.request r

/-- One query. -/
def Inspection.ask (q : Query) : Inspection q.Answer := Code.request q

namespace Routine

variable {κ : Role → Type} {α : Type}

/-- A request that cannot fail. -/
def sure (p : Procedure κ α) : Routine κ α := ExceptT.lift p

/-- A request that answers with a value or an error. -/
def tried (p : Procedure κ (Except RunError α)) : Routine κ α := ExceptT.mk p

def none : Routine κ Ref := sure (.ask Request.none)

def short (value : Int32) : Routine κ Ref := tried (.ask (Request.short value))

def tuple (items : List Ref) : Routine κ Ref := tried (.ask (Request.tuple items))

def acquire (a : Ref) : Routine κ Ref := sure (.ask (Request.acquire a))

def release (a : Ref) : Routine κ Unit := sure (.ask (Request.release a))

def binary (op : BinaryOp) (a b : Ref) : Routine κ Ref := tried (.ask (Request.binary op a b))

def compare (op : CompareOp) (a b : Ref) : Routine κ Bool := tried (.ask (Request.compare op a b))

def fib (a : Ref) : Routine κ Ref := tried (.ask (Request.fib a))

def enterRecursion : Routine κ Unit := tried (.ask Request.enterRecursion)

def leaveRecursion : Routine κ Unit := sure (.ask Request.leaveRecursion)

def object (a : Ref) : Routine κ Object := sure (.ask (Request.inspect (.object a)))

def typeName (a : Ref) : Routine κ String := sure (.ask (Request.inspect (.typeName a)))

/-- `body`, then `cleanup` whether `body` succeeds or fails. -/
def andFinally (body : Routine κ α) (cleanup : Routine κ Unit) : Routine κ α :=
  tried do
    let result ← body.run
    let _ ← cleanup.run
    return result

/-- Gives references back from left to right. -/
def releaseAll : List Ref → Routine κ Unit
  | [] => pure ()
  | a :: rest => do
    release a
    releaseAll rest

/-- `body`, after which the references are given back. -/
def consuming (refs : List Ref) (body : Routine κ α) : Routine κ α :=
  body.andFinally (releaseAll refs)

/-- `body` one level of recursion deeper. If the level is refused, the references
that `body` would have consumed are given back. -/
def recursing (refs : List Ref) (body : Routine κ α) : Routine κ α :=
  tried do
    match ← enterRecursion.run with
    | .error e =>
      let _ ← (releaseAll refs).run
      return .error e
    | .ok () => (body.andFinally leaveRecursion).run

end Routine

namespace Judgement

variable {α : Type}

def sure (p : Inspection α) : Judgement α := ExceptT.lift p

def tried (p : Inspection (Except RunError α)) : Judgement α := ExceptT.mk p

def object (a : Ref) : Judgement Object := sure (.ask (.object a))

def typeName (a : Ref) : Judgement String := sure (.ask (.typeName a))

def isTrue (a : Ref) : Judgement Bool := sure (.ask (.isTrue a))

def compare (op : CompareOp) (a b : Ref) : Judgement Bool := tried (.ask (.compare op a b))

end Judgement

end CountedHeap
