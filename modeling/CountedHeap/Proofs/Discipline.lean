/-
# Who owes what

A request consumes some of the references it is given, looks at others, and its
answer brings new ones. Code holds what was handed to it and what its requests
bring. `Uses ends held code` says that code which starts with `held` never gives a
reference that it does not hold and gives none twice, whatever the answers to its
requests are. `Settles last held code` says besides that it holds just `last a`
when it is done with `a`.

A host is disciplined if its handlers use what they hold: their operands and what
they get. A handler that still holds something beside its answer at its end
forgets it, and such references are never given back. `Host.forgets` collects
them over all the calls inside a request; it is nothing if the handlers settle what
they hold (`Host.Settled`). Handlers that only look ask about their operands only.

Key definitions: `Uses`, `Settles`, `Looks`, `Host.Disciplined`, `Host.Settled`,
`Host.forgets`.
-/
import Mathlib.Algebra.Order.Group.Multiset
import CountedHeap.Stock

namespace CountedHeap

variable {κ : Role → Type} {α β : Type}

/-- The references a query looks at. -/
def Query.refs : Query → List Ref
  | .object a | .typeName a | .isTrue a | .length a => [a]
  | .compare _ a b => [a, b]

theorem coe_pair (a b : Ref) : (([a, b] : List Ref) : Multiset Ref) = {a} + {b} := rfl

/-- What is held after a failure, or after a result. -/
def outcome (failed : Multiset Ref) (made : α → Multiset Ref) : Except RunError α → Multiset Ref
  | .ok a => made a
  | .error _ => failed

theorem outcome_const (held : Multiset Ref) (x : Except RunError α) : outcome held (fun _ => held) x = held := by
  cases x <;> rfl

namespace Request

/-- The references a request takes over. -/
def consumes : Request κ → List Ref
  | .tuple items => items
  | .release a | .tryRelease a | .unary _ a | .fib a => [a]
  | .binary _ a b | .compare _ a b => [a, b]
  | .power a b c => [a, b, c]
  | _ => []

/-- The references a request looks at. -/
def borrows : Request κ → List Ref
  | .item a _ | .acquire a => [a]
  | .inspect q => q.refs
  | _ => []

/-- The references an answer brings. -/
def makes : (r : Request κ) → r.Answer → Multiset Ref
  | .none, a | .bool _, a | .acquire _, a => {a}
  | .short _, x | .allocate _ _, x | .tuple _, x | .item _ _, x => outcome 0 ({·}) x
  | .unary _ _, x | .binary _ _ _, x | .power _ _ _, x | .fib _, x => outcome 0 ({·}) x
  | .release _, _ | .tryRelease _, _ | .compare _ _ _, _ | .register _, _ => 0
  | .enterRecursion, _ | .leaveRecursion, _ | .inspect _, _ => 0

end Request

/-- Code that holds `held` gives and looks at nothing else, and `ends a left` holds if
it is done with `a` and has `left` at that moment. -/
def Uses (ends : α → Multiset Ref → Prop) : Multiset Ref → Procedure κ α → Prop
  | held, .done a => ends a held
  | held, .call r next => ∃ rest, held = r.consumes + rest ∧ (∀ a ∈ r.borrows, a ∈ rest) ∧
      ∀ x, Uses ends (r.makes x + rest) (next x)

/-- Code that has just `last a` when it is done with `a`. -/
def Settles (last : α → Multiset Ref) (held : Multiset Ref) (code : Procedure κ α) : Prop :=
  Uses (fun a left => left = last a) held code

/-- Code that asks about `refs` and about nothing else. -/
def Looks (refs : List Ref) : Inspection α → Prop
  | .done _ => True
  | .call q next => q.refs ⊆ refs ∧ ∀ x, Looks refs (next x)

/-- A host whose handlers use what they hold and have their answer in the end. -/
structure Host.Disciplined (host : Host κ) : Prop where
  unary : ∀ name a, Uses (outcome 0 ({·}) · ≤ ·) [a] (host.unary name a).run
  binary : ∀ name a b, Uses (outcome 0 ({·}) · ≤ ·) [a, b] (host.binary name a b).run
  ternary : ∀ name a b c, Uses (outcome 0 ({·}) · ≤ ·) [a, b, c] (host.ternary name a b c).run
  truth : ∀ name a, Looks [a] (host.truth name a)
  length : ∀ name a, Looks [a] (host.length name a)
  comparison : ∀ name a b, Looks [a, b] (host.comparison name a b).run

/-- A host whose handlers have nothing but their answer in the end. -/
structure Host.Settled (host : Host κ) : Prop where
  unary : ∀ name a, Settles (outcome 0 ({·})) [a] (host.unary name a).run
  binary : ∀ name a b, Settles (outcome 0 ({·})) [a, b] (host.binary name a b).run
  ternary : ∀ name a b c, Settles (outcome 0 ({·})) [a, b, c] (host.ternary name a b c).run

/-! ### What is forgotten -/

/-- What code forgets: `lost` in each of its requests, and `left` of what it holds at
its end. -/
def Code.forgets (inner : Perform κ) (lost : Request κ → Heap κ → Multiset Ref)
    (left : α → Multiset Ref → Multiset Ref) : Procedure κ α → Multiset Ref → Heap κ → Multiset Ref
  | .done a, held, _ => left a held
  | .call r next, held, h =>
    match inner r h with
    | .ok (x, g) => lost r h + forgets inner lost left (next x) (r.makes x + (held - r.consumes)) g
    | .error _ => 0

/-- What a handler forgets. A built-in one forgets nothing. -/
def Handler.forgets {role : Role} (inner : Perform κ) (lost : Request κ → Heap κ → Multiset Ref)
    (code : κ role → Routine κ Ref) (operands : List Ref) : Handler κ role → Heap κ → Multiset Ref
  | .builtin _, _ => 0
  | .host name, h => Code.forgets inner lost (fun x held => held - outcome 0 ({·}) x) (code name).run operands h

/-- What is forgotten by the handler that an operator goes to. -/
def Heap.forgotten (h : Heap κ) (op : String) (find : Descriptor κ → Option α) (operands : List Ref)
    (lost : α → Heap κ → Multiset Ref) : Multiset Ref :=
  match h.resolve op find [] operands with
  | .ok (.ok (f, event)) => lost f (h.emit event)
  | _ => 0

/-- What is forgotten in a request, given what is forgotten in the requests inside it. -/
def stepForgets (host : Host κ) (inner : Perform κ) (lost : Request κ → Heap κ → Multiset Ref) :
    Request κ → Heap κ → Multiset Ref
  | .unary op a, h =>
    h.forgotten op.symbol (·.unary? op) [a] (Handler.forgets inner lost (host.unary · a) [a])
  | .binary op a b, h =>
    h.forgotten op.symbol (·.binary? op) [a, b] (Handler.forgets inner lost (host.binary · a b) [a, b])
  | .power a b c, h =>
    h.forgotten powerSymbol (·.power?) [a, b, c] (Handler.forgets inner lost (host.ternary · a b c) [a, b, c])
  | .fib a, h => Code.forgets inner lost (fun _ _ => 0) (Routine.fibonacci a).run [a] h
  | _, _ => 0

/-- What is forgotten in a request with `n` calls to spare on the native stack. -/
def performForgets (host : Host κ) : Nat → Request κ → Heap κ → Multiset Ref
  | 0 => stepForgets host (fun _ => throw .stackOverflow) fun _ _ => 0
  | n + 1 => stepForgets host (CountedHeap.perform host n) (performForgets host n)

/-- The references that the handlers called in a request forget. -/
def Host.forgets (host : Host κ) : Request κ → Heap κ → Multiset Ref := performForgets host host.frames

/-! ### Rules for code -/

theorem Uses.mono {ends ends' : α → Multiset Ref → Prop} {held : Multiset Ref} {code : Procedure κ α}
    (hc : Uses ends held code) (weaker : ∀ a left, ends a left → ends' a left) : Uses ends' held code := by
  induction code generalizing held with
  | done a => exact weaker a held hc
  | call r next ih =>
    obtain ⟨rest, he, hb, hx⟩ := hc
    exact ⟨rest, he, hb, fun x => ih x (hx x)⟩

namespace Looks

variable {refs : List Ref}

/-- One part after the other. -/
theorem bind {code : Inspection α} {f : α → Inspection β} (hc : Looks refs code) (hf : ∀ a, Looks refs (f a)) :
    Looks refs (code >>= f) := by
  induction code with
  | done a => exact hf a
  | call q next ih => exact ⟨hc.1, fun x => ih x (hc.2 x)⟩

/-- Parts that may fail, one after the other. -/
theorem runBind {code : Judgement α} {f : α → Judgement β} (hc : Looks refs code.run)
    (hf : ∀ a, Looks refs (f a).run) : Looks refs (code >>= f).run := by
  refine bind hc fun x => ?_
  cases x with
  | ok a => exact hf a
  | error e => trivial

theorem ask (q : Query) (hq : q.refs ⊆ refs) : Looks refs (.ask q) := ⟨hq, fun _ => trivial⟩

theorem sure {code : Inspection α} (hc : Looks refs code) : Looks refs (Judgement.sure code).run :=
  bind hc fun _ => trivial

end Looks

/-! ### The stock handlers -/

namespace Stock

theorem payload?_looks {a : Ref} {refs : List Ref} (ha : a ∈ refs) : Looks refs (payload? a) := by
  refine .bind (.ask (.object a) (List.cons_subset.mpr ⟨ha, List.nil_subset _⟩)) fun o => ?_
  cases o.payload <;> trivial

theorem judgePayload_looks {a : Ref} {refs : List Ref} (ha : a ∈ refs) : Looks refs (judgePayload a).run := by
  refine .runBind (.sure (payload?_looks ha)) fun n => ?_
  cases n with
  | some n => trivial
  | none => exact .runBind (.sure (.ask (.typeName a) (List.cons_subset.mpr ⟨ha, List.nil_subset _⟩))) fun _ => trivial

theorem truth_looks (f : Truth) (a : Ref) : Looks [a] (truth f a) := by
  cases f with
  | always | never => trivial
  | payloadNonzero => exact .bind (payload?_looks List.mem_cons_self) fun _ => trivial

theorem length_looks (f : Length) (a : Ref) : Looks [a] (length f a) := by
  cases f with
  | zero | three => trivial
  | payload => exact .bind (payload?_looks List.mem_cons_self) fun _ => trivial

theorem comparison_looks (f : Comparison) (a b : Ref) : Looks [a, b] (comparison f a b).run := by
  have ha : a ∈ [a, b] := List.mem_cons_self
  have hb : b ∈ [a, b] := List.mem_cons_of_mem a List.mem_cons_self
  cases f with
  | always | never | fail => trivial
  | payloadEqual | payloadLessOrEqual =>
    exact .runBind (judgePayload_looks ha) fun _ => .runBind (judgePayload_looks hb) fun _ => trivial
  | sameTruth =>
    exact .runBind (.sure (.ask (.isTrue a) (List.cons_subset.mpr ⟨ha, List.nil_subset _⟩))) fun _ =>
      .runBind (.sure (.ask (.isTrue b) (List.cons_subset.mpr ⟨hb, List.nil_subset _⟩))) fun _ => trivial
  | asEqual =>
    exact .ask (.compare .equal b a) (List.cons_subset.mpr ⟨hb, List.cons_subset.mpr ⟨ha, List.nil_subset _⟩⟩)

end Stock

end CountedHeap
