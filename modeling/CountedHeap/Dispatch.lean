/-
# Performing requests

An operator goes to the first operand, from the left, whose type has a handler
for it, and the handler gets the operands in their given order. If no type has
one, the operands are given back and the error names all their types.

Handlers may make requests of their own. A host therefore supplies, beside the
code of its handlers, the number of nested calls its native stack holds; a call
nested deeper ends the run. `consult` and `step` say what one call does, given
what the calls inside it do, and `perform` ties the knot.
-/
import CountedHeap.Builtin.Short
import CountedHeap.Builtin.Tuple
import CountedHeap.Fib

namespace CountedHeap

variable {κ : Role → Type}

/-- The code behind a host's handler names. -/
structure Host (κ : Role → Type) where
  unary : κ .unary → Ref → Routine κ Ref
  binary : κ .binary → Ref → Ref → Routine κ Ref
  ternary : κ .ternary → Ref → Ref → Ref → Routine κ Ref
  truth : κ .truth → Ref → Inspection Bool
  length : κ .length → Ref → Inspection Nat
  comparison : κ .comparison → Ref → Ref → Judgement Bool
  /-- How many calls the native stack holds, one inside the other. -/
  frames : Nat

/-- Answers queries on a fixed heap. -/
abbrev Consult := (q : Query) → Except Fault q.Answer

/-- Performs requests. -/
abbrev Perform (κ : Role → Type) := (r : Request κ) → HeapM κ r.Answer

namespace Heap

/-- The first operand whose type has what `find` looks for, with the event that
reports it; `seen` are the types of the operands passed over. -/
def resolve {α : Type} (h : Heap κ) (op : String) (find : Descriptor κ → Option α) (seen : List String) :
    List Ref → ReadM (α × Event)
  | [] => throw (.unsupported op seen)
  | a :: rest => do
    let d ← h.typeOf a
    match find d with
    | some handler => return (handler, .dispatch op d.name seen.length)
    | Option.none => h.resolve op find (seen ++ [d.name]) rest

/-- Resolves an operator and calls its handler, which consumes the operands. -/
def dispatch {α : Type} (op : String) (find : Descriptor κ → Option α) (operands : List Ref)
    (call : α → RunM κ Ref) : RunM κ Ref := fun h => do
  match ← h.resolve op find [] operands with
  | .ok (handler, event) => call handler (h.emit event)
  | .error e => return (.error e, h.releaseAll operands)

end Heap

/-! ### Calling a handler -/

/-- Runs a routine by performing its requests. -/
def Routine.exec {α : Type} (inner : Perform κ) (code : Routine κ α) : RunM κ α :=
  ExceptT.mk (Code.run inner code.run)

/-- Runs a judgement by answering its queries. -/
def Judgement.exec {α : Type} (inner : Consult) (code : Judgement α) : ReadM α :=
  ExceptT.mk (Code.run inner code.run)

namespace Handler

variable (host : Host κ)

def unary (inner : Perform κ) : Handler κ .unary → Ref → RunM κ Ref
  | .builtin .shortNegative, a => Heap.Short.unary .negative Word.neg? a
  | .builtin .shortPositive, a => Heap.Short.unary .positive some a
  | .builtin .shortAbsolute, a => Heap.Short.unary .absolute Word.abs? a
  | .host name, a => (host.unary name a).exec inner

def binary (inner : Perform κ) : Handler κ .binary → Ref → Ref → RunM κ Ref
  | .builtin .shortAdd, a, b => Heap.Short.arithmetic .add Word.add? a b
  | .builtin .shortSubtract, a, b => Heap.Short.arithmetic .subtract Word.sub? a b
  | .builtin .shortMultiply, a, b => Heap.Short.arithmetic .multiply Word.mul? a b
  | .builtin .shortRemainder, a, b => Heap.Short.division .remainder (some <| Word.floorMod · ·) a b
  | .builtin .shortFloorDivide, a, b => Heap.Short.division .floorDivide Word.floorDiv? a b
  | .builtin .tupleConcat, a, b => Heap.Tuple.concat a b
  | .builtin .tupleSubscript, a, b => Heap.Tuple.subscript a b
  | .host name, a, b => (host.binary name a b).exec inner

def ternary (inner : Perform κ) : Handler κ .ternary → Ref → Ref → Ref → RunM κ Ref
  | .builtin .shortPower, a, b, c => Heap.Short.power a b c
  | .host name, a, b, c => (host.ternary name a b c).exec inner

variable (h : Heap κ) (inner : Consult)

/-- `None` is false without being looked at. -/
def truth : Handler κ .truth → Ref → Except Fault Bool
  | .builtin .noneTruth, _ => return false
  | .builtin .boolTruth, a => h.boolTruth a
  | .builtin .shortTruth, a => h.shortTruth a
  | .host name, a => (host.truth name a).run inner

def length : Handler κ .length → Ref → Except Fault Nat
  | .builtin .tupleLength, a => h.tupleLength a
  | .host name, a => (host.length name a).run inner

def compare : Handler κ .comparison → Ref → Ref → Except Fault (Except RunError Bool)
  | .builtin .boolEqual, a, b => return .ok (← h.boolEqual a b)
  | .builtin .shortEqual, a, b => return .ok (← h.shortEqual a b)
  | .builtin .shortLessOrEqual, a, b => h.shortLessOrEqual a b
  | .builtin .tupleEqual, a, b => h.tupleEqual (fun x y => inner (.compare .equal x y)) a b
  | .host name, a, b => (host.comparison name a b).exec inner

end Handler

/-! ### Queries -/

/-- Truth, length and comparison of objects that stay with the asker. A type with
neither a truth nor a length is true; its length is asked for as a mapping first
when it stands for the truth, and as a sequence first otherwise. A comparison
looks at both types before it calls a handler. -/
def consult (host : Host κ) (h : Heap κ) (inner : Consult) : Consult
  | .object a => h.get a
  | .typeName a => h.typeName a
  | .isTrue a => do
    let d ← h.typeOf a
    match d.truth?, d.mappingLength?.or d.sequenceLength? with
    | some truth, _ => truth.truth host h inner a
    | none, some length => return 0 < (← length.length host h inner a)
    | none, none => return true
  | .length a => do
    let d ← h.typeOf a
    match d.sequenceLength?.or d.mappingLength? with
    | some length => return .ok (← length.length host h inner a)
    | none => return .error (.unsupported lengthSymbol [d.name])
  | .compare op a b => do
    let left ← h.typeOf a
    let right ← h.typeOf b
    match (left.comparison? op).or (right.comparison? op) with
    | some handler => handler.compare host h inner a b
    | none => return .error (.unsupported op.symbol [left.name, right.name])

/-- Answers queries with `n` calls to spare on the native stack. -/
def consulting (host : Host κ) (h : Heap κ) : Nat → Consult
  | 0 => consult host h fun _ => throw .stackOverflow
  | n + 1 => consult host h (consulting host h n)

/-- What queries inside a call can rely on. -/
def nested (host : Host κ) (h : Heap κ) : Nat → Consult
  | 0 => fun _ => throw .stackOverflow
  | n + 1 => consulting host h n

/-! ### Requests -/

/-- A comparison that consumes its operands, whatever comes of it. -/
def compareConsuming (host : Host κ) (n : Nat) (op : CompareOp) (a b : Ref) : RunM κ Bool := fun h => do
  match ← h.resolve op.symbol (·.comparison? op) [] [a, b] with
  | .error e => return (.error e, h.releaseAll [a, b])
  | .ok (handler, event) =>
    let h := h.emit event
    let answer ← handler.compare host h (nested host h n) a b
    return (answer, h.releaseAll [a, b])

/-- What a request does with `n` calls to spare, given what requests made inside it do. -/
def step (host : Host κ) (n : Nat) (inner : Perform κ) : Perform κ
  | .none => Heap.none
  | .bool value => Heap.bool value
  | .short value => Heap.short value
  | .allocate type payload => Heap.allocate type payload
  | .tuple items => Heap.tuple items
  | .item a index => Heap.item "tuple item" a index
  | .acquire a => Heap.newRef a
  | .release a => modify (·.release a)
  | .tryRelease a => fun h =>
    match h.tryRelease a with
    | (h, none) => return (.ok (), h)
    | (h, some cause) => return (.error (.inconsistent cause), h)
  | .unary op a => Heap.dispatch op.symbol (·.unary? op) [a] fun f => f.unary host inner a
  | .binary op a b => Heap.dispatch op.symbol (·.binary? op) [a, b] fun f => f.binary host inner a b
  | .power a b c => Heap.dispatch powerSymbol (·.power?) [a, b, c] fun f => f.ternary host inner a b c
  | .compare op a b => compareConsuming host n op a b
  | .fib a => (Routine.fibonacci a).exec inner
  | .register d => fun h => do
    let (type, types) ← h.types.register d
    return (type, { h with types := types })
  | .enterRecursion => fun h =>
    match h.enterRecursion with
    | .ok h => return (.ok (), h)
    | .error e => return (.error (.exhausted e), h)
  | .leaveRecursion => modify (·.leaveRecursion)
  | .inspect q => fun h => do
    let answer ← consulting host h n q
    return (answer, h)

/-- Performs requests with `n` calls to spare on the native stack. -/
def perform (host : Host κ) : Nat → Perform κ
  | 0 => step host 0 fun _ => throw .stackOverflow
  | n + 1 => step host (n + 1) (perform host n)

namespace Host

variable (host : Host κ)

/-- Performs a request on the whole of the native stack. -/
def perform (r : Request κ) : HeapM κ r.Answer := CountedHeap.perform host host.frames r

/-- Answers a query on the whole of the native stack. -/
def consult (h : Heap κ) (q : Query) : Except Fault q.Answer := consulting host h host.frames q

end Host

end CountedHeap
