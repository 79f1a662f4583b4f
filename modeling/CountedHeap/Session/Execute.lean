/-
# Executing commands

Most commands are one request. A command that makes a reference shows the object
first; the reference is then bound to a name or given back.
-/
import CountedHeap.Session.Desk

namespace CountedHeap
namespace Session

variable {κ : Role → Type}

open DeskM

/-- The result of a command: a reference, which is then bound or given back, a
value, or a reference that was forgotten. -/
inductive Outcome (κ : Role → Type) where
  | made (r : Ref)
  | value (v : Value κ)
  | leaked (r : Ref)

/-- Calls a handler on arguments that have been made for it. Handlers that only
look have their arguments given back afterwards. A handler is not called with the
wrong number of arguments. -/
def callHandler (host : Host κ) : (role : Role) → Handler κ role → List Ref → DeskM κ (Outcome κ)
  | .unary, f, [a] => return .made (← tried (f.unary host (perform host host.frames) a))
  | .binary, f, [a, b] => return .made (← tried (f.binary host (perform host host.frames) a b))
  | .ternary, f, [a, b, c] => return .made (← tried (f.ternary host (perform host host.frames) a b c))
  | .truth, f, [a] => do
    let answer ← reading fun h => f.truth host h (consulting host h host.frames) a
    releaseAll [a]
    return .value (.bool answer)
  | .length, f, [a] => do
    let answer ← reading fun h => f.length host h (consulting host h host.frames) a
    releaseAll [a]
    return .value (.nat answer)
  | .comparison, f, [a, b] => do
    let answer ← reading fun h => f.compare host h (consulting host h host.frames) a b
    releaseAll [a, b]
    match answer with
    | .ok b => return .value (.bool b)
    | .error e => throw (.failed e)
  | _, _, args => do
    releaseAll args
    return .value .null

/-- What a command does at the desk. -/
def execute (host : Host κ) : Command κ → DeskM κ (Outcome κ)
  | .short value => return .made (← tried (host.perform (.short value)))
  | .none => return .made (← sure (host.perform .none))
  | .bool value => return .made (← sure (host.perform (.bool value)))
  | .tuple items => do
    let refs ← evalAll [] items
    return .made (← tried (host.perform (.tuple refs)))
  | .allocate label payload => do
    let t ← namedType label
    return .made (← tried (host.perform (.allocate t payload)))
  | .acquire a => do
    let r ← namedRef a
    return .made (← sure (host.perform (.acquire r)))
  | .item a index => do
    let r ← namedRef a
    return .made (← tried (host.perform (.item r index)))
  | .unary op a => do
    let a ← a.eval
    return .made (← tried (host.perform (.unary op a)))
  | .binary op a b => do
    let (a, b) ← evalTwo a b
    return .made (← tried (host.perform (.binary op a b)))
  | .power a b c => do
    let (a, b, c) ← evalThree a b c
    return .made (← tried (host.perform (.power a b c)))
  | .fib a => do
    let a ← a.eval
    return .made (← tried (host.perform (.fib a)))
  | .callSlot label place args => do
    let t ← namedType label
    let d ← reading (·.types.get t)
    match d.handler? place with
    | none => throw (.emptySlot place)
    | some f => callHandler host place.role f (← evalAll [] args)
  | .shortGuarding value items => do
    let refs ← evalAll [] items
    return .made (← tried (Heap.consuming refs (Heap.short value)))
  | .register label d => do
    let t ← sure (host.perform (.register d))
    rename (·.bindType label t)
    return .value (.nat t.index)
  | .findType name => return .value (.type? (← reading fun h => pure (h.types.findName? name)))
  | .describe label => do
    let t ← namedType label
    return .value (.descriptor (← reading (·.types.get t)))
  | .release a => do
    let a ← a.eval
    sure (host.perform (.release a))
    return .value .null
  | .tryRelease a => do
    let a ← a.eval
    tried (host.perform (.tryRelease a))
    return .value .null
  | .leak a => return .leaked (← a.eval)
  | .releaseAll items => do
    let refs ← evalAll [] items
    releaseAll refs
    return .value .null
  | .releaseReversed items => do
    let refs ← evalAll [] items
    releaseAll refs.reverse
    return .value .null
  | .releaseCounting items => do
    let refs ← evalAll [] items
    releaseAll refs
    return .value (.nat refs.length)
  | .compare op a b => do
    let (a, b) ← evalTwo a b
    return .value (.bool (← tried (host.perform (.compare op a b))))
  | .compareHeld op a b => do
    let a ← namedRef a
    let b ← namedRef b
    return .value (.bool (← tried (Heap.reading fun h => host.consult h (.compare op a b))))
  | .isTrue a => do
    let a ← namedRef a
    return .value (.bool (← reading fun h => host.consult h (.isTrue a)))
  | .length a => do
    let a ← namedRef a
    return .value (.nat (← tried (Heap.reading fun h => host.consult h (.length a))))
  | .valueOf a => do
    let a ← namedRef a
    return .value (.int (← tried (Heap.reading (·.shortValue "short" a))).toInt)
  | .same a b => do
    let a ← namedRef a
    let b ← namedRef b
    return .value (.bool (a == b))
  | .inspect a => do
    let a ← namedRef a
    return .value (.inspected (← view a))
  | .peek r => do
    match ← reading fun h => pure (h.object? r) with
    | none => return .value (.peeked r none)
    | some _ => return .value (.peeked r (some (← view r)))
  | .stats => return .value (.stats (← reading fun h => pure h.snapshot))
  | .blocks => return .value (.blocks (← reading fun h => pure h.ledger.counts))
  | .parkedOf size => return .value (.nat (← reading fun h => pure (h.store.parkedOf size)))
  | .range => return .value (.range (← reading fun h => pure h.interned.shorts))
  | .snapshot name => do
    let s ← reading fun h => pure h.snapshot
    rename (·.bindSnapshot name s)
    return .value .null
  | .diff before after => do
    let b ← namedSnapshot before
    match after with
    | some name => return .value (.diff (b.diff (← namedSnapshot name)))
    | none => return .value (.diff (b.diff (← reading fun h => pure h.snapshot)))
  | .enter => do
    tried (host.perform .enterRecursion)
    return .value (.nat (← get).heap.depth)
  | .leave => do
    sure (host.perform .leaveRecursion)
    return .value (.nat (← get).heap.depth)
  | .setTracker tracker => do
    sure (modify (·.withTracker tracker))
    return .value .null
  | .setSink sink => do
    sure (modify (·.withSink sink))
    return .value .null

/-- Shows a new reference, and then binds it or gives it back. -/
def settle (target : Option String) : Outcome κ → DeskM κ (Reply κ)
  | .value v => return .value v
  | .leaked r => return .leaked r
  | .made r => do
    let v ← view r
    match target with
    | some name => rename (·.bind name r)
    | none => releaseAll [r]
    return .made v

end Session
end CountedHeap
