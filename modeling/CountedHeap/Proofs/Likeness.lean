/-
# Heaps that no request tells apart

A request reads the store, the types, the interned range and the depth of a heap.
Of the ledger it learns only whether a block or a level is refused, and of the
tracer nothing. So two heaps that agree in what is read and refuse the same are
served alike. `Likeness R` lists what this takes of a relation `R` between heaps:
related heaps differ in ledger and tracer only, they refuse the same, and they stay
related when the same is done to both. Then every request has the same outcome in
both and leaves related heaps, whatever references it is given and whatever the
handlers of the host do; and so has every sequence of requests.

Key definitions: `Likeness`, `Respects`, `Abreast`.
Key theorems: `Likeness.cascade`, `Likeness.step`, `Likeness.perform`, `Abreast.alike`.
-/
import CountedHeap.Proofs.Evolution
import CountedHeap.Proofs.Uniform

namespace CountedHeap

variable {κ : Role → Type} {α β : Type}

/-- A relation between heaps of which no request can tell one from the other. -/
structure Likeness (R : Heap κ → Heap κ → Prop) : Prop where
  same {h h' : Heap κ} : R h h' → ∃ ledger tracer, h' = { h with ledger, tracer }
  /-- The same is written to both. -/
  write {h h' : Heap κ} (store : Store) (types : Registry κ) (depth violations : Nat) : R h h' →
    R { h with store, types, depth, violations } { h' with store, types, depth, violations }
  /-- The same is reported to both. -/
  emit {h h' : Heap κ} (e : Event) : R h h' → R (h.emit e) (h'.emit e)
  /-- A block of the same size is given back to both. -/
  free {h h' : Heap κ} (size : Nat) : R h h' →
    R { h with ledger := h.ledger.free size } { h' with ledger := h'.ledger.free size }
  /-- A block of the same size is charged to both, or refused in the same words. -/
  charge {h h' : Heap κ} (size : Nat) : R h h' →
    Matches (fun l l' => R { h with ledger := l } { h' with ledger := l' }) (h.ledger.allocate size)
      (h'.ledger.allocate size)
  /-- A level is refused by both or by neither. -/
  level {h h' : Heap κ} : R h h' → h'.ledger.tracker.checkDepth h.depth = h.ledger.tracker.checkDepth h.depth

/-- Results with the same value and related heaps. -/
def Alike (R : Heap κ → Heap κ → Prop) (p q : α × Heap κ) : Prop := q.1 = p.1 ∧ R p.2 q.2

/-- An operation with the same outcome in related heaps, which stay related. -/
def Respects (R : Heap κ → Heap κ → Prop) (m : HeapM κ α) : Prop :=
  ∀ h h' : Heap κ, R h h' → Matches (Alike R) (m h) (m h')

namespace Respects

variable {R : Heap κ → Heap κ → Prop}

theorem pure (a : α) : Respects R (Pure.pure a : HeapM κ α) := fun _ _ hR => ⟨rfl, hR⟩

theorem throw (e : RunError) : Respects R (MonadExcept.throw e : RunM κ α) := fun _ _ hR => ⟨rfl, hR⟩

theorem bind {m : HeapM κ α} {f : α → HeapM κ β} (hm : Respects R m) (hf : ∀ a, Respects R (f a)) :
    Respects R (m >>= f) := by
  intro h h' hR
  refine Matches.bind (hm h h' hR) fun p q hpq => ?_
  obtain ⟨a, g⟩ := p
  obtain ⟨b, g'⟩ := q
  obtain ⟨rfl, hg⟩ := hpq
  exact hf _ g g' hg

/-- Operations that may fail, one after the other. -/
theorem runBind {m : RunM κ α} {f : α → RunM κ β} (hm : Respects R m) (hf : ∀ a, Respects R (f a)) :
    Respects R (m >>= f : RunM κ β) := by
  refine bind (m := m) hm fun x => ?_
  cases x with
  | ok a => exact hf a
  | error e => exact pure _

theorem lift {m : HeapM κ α} (hm : Respects R m) : Respects R (ExceptT.lift m : RunM κ α) :=
  bind (m := m) hm fun a => pure (Except.ok a)

theorem checked (op : String) (v : Option Int32) : Respects R (Heap.Short.checked op v : RunM κ Int32) := by
  cases v with
  | some v => exact pure _
  | none => exact throw _

end Respects

/-! ### What a request reads -/

/-- A reading that looks at neither the ledger nor the tracer. -/
def Heap.Plain (f : Heap κ → α) : Prop := ∀ (h : Heap κ) ledger tracer, f { h with ledger, tracer } = f h

theorem consult_plain (host : Host κ) (inner : Consult) : Heap.Plain fun h => consult host h inner := by
  intro h ledger tracer
  funext q
  cases q <;> rfl

theorem consulting_plain (host : Host κ) : ∀ n, Heap.Plain fun h => consulting host h n
  | 0 => consult_plain host _
  | n + 1 => by
    intro h ledger tracer
    have inner : consulting host { h with ledger, tracer } n = consulting host h n :=
      consulting_plain host n h ledger tracer
    show consult host _ (consulting host _ n) = consult host h (consulting host h n)
    rw [inner]
    exact consult_plain host _ h ledger tracer

theorem nested_plain (host : Host κ) (n : Nat) : Heap.Plain fun h => nested host h n := by
  intro h ledger tracer
  cases n with
  | zero => rfl
  | succ n => exact consulting_plain host n h ledger tracer

theorem compare_plain (host : Host κ) (n : Nat) (f : Handler κ .comparison) (a b : Ref) :
    Heap.Plain fun h => f.compare host h (nested host h n) a b := by
  intro h ledger tracer
  have inner : nested host { h with ledger, tracer } n = nested host h n := nested_plain host n h ledger tracer
  show f.compare host _ (nested host _ n) a b = _
  rw [inner]
  rfl

theorem resolve_plain (op : String) (find : Descriptor κ → Option α) (seen : List String) (operands : List Ref) :
    Heap.Plain fun h => h.resolve op find seen operands := by
  intro h ledger tracer
  induction operands generalizing seen with
  | nil => rfl
  | cons a rest ih =>
    show (ExceptT.lift (h.typeOf a) >>= _ : ReadM (α × Event)) = ExceptT.lift (h.typeOf a) >>= _
    congr 1
    funext d
    split
    · rfl
    · exact ih _

namespace Likeness

variable {R : Heap κ → Heap κ → Prop} (like : Likeness R)
include like

/-- What looks at neither the ledger nor the tracer sees the same in both. -/
theorem read {f : Heap κ → α} (hf : Heap.Plain f) {h h' : Heap κ} (hR : R h h') : f h' = f h := by
  obtain ⟨ledger, tracer, rfl⟩ := like.same hR
  exact hf h ledger tracer

/-! ### Giving references back -/

theorem put {h h' : Heap κ} (hR : R h h') (store : Store) : R { h with store } { h' with store } := by
  obtain ⟨ledger, tracer, rfl⟩ := like.same hR
  exact like.write store h.types h.depth h.violations hR

theorem bury {h h' : Heap κ} (hR : R h h') (r : Ref) (dead : Object) : R (h.bury r dead) (h'.bury r dead) := by
  have hv := like.put hR (h.store.put r .vacant)
  obtain ⟨ledger, tracer, rfl⟩ := like.same hR
  have hp : ({ h with ledger, tracer }.setSlot r .vacant).parkingFor? dead = (h.setSlot r .vacant).parkingFor? dead :=
    rfl
  unfold Heap.bury Heap.freeBlock
  rw [hp]
  cases (h.setSlot r .vacant).parkingFor? dead with
  | some c => exact like.emit _ (like.put hv _)
  | none => exact like.emit _ (like.free dead.size (like.put hv _))

theorem verdict {h h' : Heap κ} (hR : R h h') (r : Ref) : h'.verdict r = h.verdict r :=
  like.read (f := fun h => h.verdict r) (fun _ _ _ => rfl) hR

theorem decrement {h h' : Heap κ} (hR : R h h') (r : Ref) (o : Object) : R (h.decrement r o) (h'.decrement r o) := by
  have hp := like.put hR (h.store.put r (.live { o with refcount := o.refcount - 1 }))
  obtain ⟨ledger, tracer, rfl⟩ := like.same hR
  exact hp

theorem cascade {h h' : Heap κ} (hR : R h h') (first : Option Inconsistency) (pending : List Ref) :
    R (h.cascade first pending).1 (h'.cascade first pending).1 ∧
      (h'.cascade first pending).2 = (h.cascade first pending).2 := by
  fun_induction Heap.cascade h first pending generalizing h' with
  | case1 h first =>
    rw [Heap.cascade]
    exact ⟨hR, rfl⟩
  | case2 h first r rest cause hv ih =>
    rw [Heap.cascade_refused ((like.verdict hR r).trans hv)]
    exact ih hR
  | case3 h first r rest o hv ih =>
    rw [Heap.cascade_kept ((like.verdict hR r).trans hv)]
    exact ih (like.decrement hR r o)
  | case4 h first r rest o hv ih =>
    rw [Heap.cascade_dies ((like.verdict hR r).trans hv)]
    exact ih (like.bury hR r o)

/-- What does not fit is counted in both. -/
theorem skip {h h' : Heap κ} (hR : R h h') (cause : Inconsistency) :
    R ({ h with violations := h.violations + 1 }.emit (.violation cause))
      ({ h' with violations := h'.violations + 1 }.emit (.violation cause)) := by
  have hw := like.write h.store h.types h.depth (h.violations + 1) hR
  obtain ⟨ledger, tracer, rfl⟩ := like.same hR
  exact like.emit _ hw

theorem release {h h' : Heap κ} (hR : R h h') (r : Ref) : R (h.release r) (h'.release r) := by
  have hc := like.cascade hR none [r]
  unfold Heap.release Heap.tryRelease
  generalize h.cascade none [r] = p at hc
  generalize h'.cascade none [r] = q at hc
  obtain ⟨g, cause⟩ := p
  obtain ⟨g', cause'⟩ := q
  obtain ⟨hg, rfl⟩ := hc
  cases cause' with
  | none => exact hg
  | some cause => exact like.skip hg cause

theorem releaseAll : ∀ (refs : List Ref) {h h' : Heap κ}, R h h' → R (h.releaseAll refs) (h'.releaseAll refs)
  | [], _, _, hR => hR
  | r :: rest, _, _, hR => releaseAll rest (like.release hR r)

/-! ### Making objects -/

theorem reading {f : Heap κ → ReadM α} (hf : Heap.Plain f) : Respects R (Heap.reading f) := by
  intro h h' hR
  unfold Heap.reading
  rw [like.read hf hR]
  cases f h with
  | error e => exact rfl
  | ok x => exact ⟨rfl, hR⟩

theorem newRef (r : Ref) : Respects R (Heap.newRef r : HeapM κ Ref) := by
  intro h h' hR
  have he : h'.store = h.store := like.read (fun _ _ _ => rfl) hR
  unfold Heap.newRef Heap.acquire Heap.object?
  rw [he]
  cases h.store.object? r with
  | none => exact rfl
  | some o => exact ⟨rfl, like.put hR _⟩

theorem hit (r : Ref) : Respects R (Heap.hit r : HeapM κ Ref) :=
  fun _ _ hR => like.newRef r _ _ (like.emit (.hit r) hR)

theorem takeBlock {h h' : Heap κ} (hR : R h h') (name : String) (size : Nat) :
    Matches (Alike R) (h.takeBlock name size) (h'.takeBlock name size) := by
  have he : h'.store = h.store := like.read (fun _ _ _ => rfl) hR
  have hc := like.charge size hR
  unfold Heap.takeBlock
  rw [he]
  cases h.store.takeParked size with
  | error f => exact rfl
  | ok found =>
    cases found with
    | some p => exact ⟨rfl, like.emit _ (like.put hR p.2)⟩
    | none =>
      rcases hc.cases with ⟨l, l', hl, hl', hL⟩ | ⟨e, hl, hl'⟩
      · simp only [bind, Except.bind, hl, hl']
        exact ⟨rfl, like.emit _ (like.put hL _)⟩
      · simp only [bind, Except.bind, hl, hl']
        exact ⟨rfl, hR⟩

theorem construct (type : TypeId) (payload : Payload) : Respects R (Heap.construct type payload : RunM κ Ref) := by
  intro h h' hR
  have he : h'.types = h.types := like.read (fun _ _ _ => rfl) hR
  unfold Heap.construct
  rw [he]
  cases h.types.get type with
  | error f => exact rfl
  | ok d =>
    have taken := like.takeBlock hR d.name (d.blockSize payload.children.length)
    refine Matches.bind (α := Except Exhaustion Ref × Heap κ) (β := Except Exhaustion Ref × Heap κ) taken
      fun p q hpq => ?_
    obtain ⟨x, g⟩ := p
    obtain ⟨y, g'⟩ := q
    obtain ⟨rfl, hg⟩ := hpq
    cases y with
    | error e => exact ⟨rfl, like.releaseAll _ hg⟩
    | ok r =>
      have hs : g'.store = g.store := like.read (fun _ _ _ => rfl) hg
      refine ⟨rfl, ?_⟩
      show R { g with store := _ } { g' with store := _ }
      rw [hs]
      exact like.put hg _

theorem short (value : Int32) : Respects R (Heap.short value : RunM κ Ref) := by
  intro h h' hR
  have he : h'.interned = h.interned := like.read (fun _ _ _ => rfl) hR
  unfold Heap.short
  rw [he]
  cases h.interned.short? value with
  | some r => exact Respects.lift (like.hit r) h h' hR
  | none => exact like.construct _ _ h h' hR

theorem allocate (type : TypeId) (payload : Int64) : Respects R (Heap.allocate type payload : RunM κ Ref) := by
  intro h h' hR
  have he : h'.types = h.types := like.read (fun _ _ _ => rfl) hR
  unfold Heap.allocate
  rw [he]
  split
  · exact ⟨rfl, hR⟩
  · exact like.construct _ _ h h' hR

theorem item (op : String) (a : Ref) (index : Int) : Respects R (Heap.item op a index : RunM κ Ref) :=
  .runBind (like.reading fun _ _ _ => rfl) fun r => .lift (like.newRef r)

theorem consuming (refs : List Ref) {body : RunM κ α} (hb : Respects R body) :
    Respects R (Heap.consuming refs body) := by
  intro h h' hR
  refine Matches.bind (hb h h' hR) fun p q hpq => ?_
  exact ⟨hpq.1, like.releaseAll refs hpq.2⟩

/-! ### Handlers -/

theorem unary (op : UnaryOp) (f : Int32 → Option Int32) (a : Ref) : Respects R (Heap.Short.unary op f a : RunM κ Ref) :=
  like.consuming _ (.runBind (like.reading fun _ _ _ => rfl) fun _ =>
    .runBind (.checked _ _) fun v => like.short v)

theorem arithmetic (op : BinaryOp) (f : Int32 → Int32 → Option Int32) (a b : Ref) :
    Respects R (Heap.Short.arithmetic op f a b : RunM κ Ref) :=
  like.consuming _ (.runBind (like.reading fun _ _ _ => rfl) fun _ => .runBind (like.reading fun _ _ _ => rfl) fun _ =>
    .runBind (.checked _ _) fun v => like.short v)

theorem division (op : BinaryOp) (f : Int32 → Int32 → Option Int32) (a b : Ref) :
    Respects R (Heap.Short.division op f a b : RunM κ Ref) := by
  refine like.consuming _ (.runBind (like.reading fun _ _ _ => rfl) fun x =>
    .runBind (like.reading fun _ _ _ => rfl) fun y => ?_)
  split
  · exact .throw _
  · exact .runBind (.checked _ _) fun v => like.short v

theorem power (a b c : Ref) : Respects R (Heap.Short.power a b c : RunM κ Ref) := by
  refine like.consuming _ (.runBind (like.reading fun _ _ _ => rfl) fun x =>
    .runBind (like.reading fun _ _ _ => rfl) fun e => ?_)
  split
  · exact .throw _
  refine .runBind (like.reading fun _ _ _ => rfl) fun modulus => ?_
  split
  · exact .runBind (.checked _ _) fun v => like.short v
  refine .runBind (like.reading fun _ _ _ => rfl) fun m => ?_
  split
  · exact .throw _
  · exact like.short _

theorem share : ∀ items : List Ref, Respects R (Heap.Tuple.share items : HeapM κ Unit)
  | [] => .pure ()
  | r :: rest => .bind (like.newRef r) fun _ => share rest

theorem concat (a b : Ref) : Respects R (Heap.Tuple.concat a b : RunM κ Ref) :=
  like.consuming _ (.runBind (like.reading fun _ _ _ => rfl) fun _ => .runBind (like.reading fun _ _ _ => rfl) fun _ =>
    .runBind (.lift (like.share _)) fun _ => like.construct _ _)

theorem subscript (a b : Ref) : Respects R (Heap.Tuple.subscript a b : RunM κ Ref) :=
  like.consuming _ (.runBind (like.reading fun _ _ _ => rfl) fun _ => like.item _ _ _)

theorem dispatch (op : String) (find : Descriptor κ → Option α) (operands : List Ref) {call : α → RunM κ Ref}
    (hc : ∀ f, Respects R (call f)) : Respects R (Heap.dispatch op find operands call) := by
  intro h h' hR
  unfold Heap.dispatch
  rw [like.read (resolve_plain op find [] operands) hR]
  cases h.resolve op find [] operands with
  | error f => exact rfl
  | ok resolved =>
    cases resolved with
    | ok p => exact hc p.1 _ _ (like.emit p.2 hR)
    | error e => exact ⟨rfl, like.releaseAll operands hR⟩

end Likeness

/-! ### Requests -/

/-- Code has the same outcome in related heaps if each of its requests has. -/
theorem Code.run_respects {R : Heap κ → Heap κ → Prop} {inner : Perform κ} (hi : ∀ r, Respects R (inner r)) :
    ∀ code : Procedure κ α, Respects R (code.run inner)
  | .done a => .pure a
  | .call r next => .bind (hi r) fun x => run_respects hi (next x)

namespace Likeness

variable {R : Heap κ → Heap κ → Prop} (like : Likeness R) (host : Host κ)
include like

section Handlers

variable {inner : Perform κ} (hi : ∀ r, Respects R (inner r))
include hi

theorem unaryHandler (f : Handler κ .unary) (a : Ref) : Respects R (f.unary host inner a) := by
  cases f with
  | builtin b => cases b <;> exact like.unary _ _ _
  | host name => exact Code.run_respects hi _

theorem binaryHandler (f : Handler κ .binary) (a b : Ref) : Respects R (f.binary host inner a b) := by
  cases f with
  | builtin f =>
    cases f with
    | shortAdd | shortSubtract | shortMultiply => exact like.arithmetic _ _ _ _
    | shortRemainder | shortFloorDivide => exact like.division _ _ _ _
    | tupleConcat => exact like.concat _ _
    | tupleSubscript => exact like.subscript _ _
  | host name => exact Code.run_respects hi _

theorem ternaryHandler (f : Handler κ .ternary) (a b c : Ref) : Respects R (f.ternary host inner a b c) := by
  cases f with
  | builtin f =>
    cases f with
    | shortPower => exact like.power _ _ _
  | host name => exact Code.run_respects hi _

end Handlers

theorem compareConsuming (n : Nat) (op : CompareOp) (a b : Ref) :
    Respects R (CountedHeap.compareConsuming host n op a b) := by
  intro h h' hR
  unfold CountedHeap.compareConsuming
  rw [like.read (resolve_plain op.symbol (·.comparison? op) [] [a, b]) hR]
  cases h.resolve op.symbol (·.comparison? op) [] [a, b] with
  | error f => exact rfl
  | ok resolved =>
    cases resolved with
    | error e => exact ⟨rfl, like.releaseAll _ hR⟩
    | ok p =>
      have he := like.emit p.2 hR
      have ha := like.read (compare_plain host n p.1 a b) he
      simp only [bind, Except.bind, ha]
      cases p.1.compare host (h.emit p.2) (nested host (h.emit p.2) n) a b with
      | error f => exact rfl
      | ok answer => exact ⟨rfl, like.releaseAll _ he⟩

theorem tryRelease (n : Nat) (inner : Perform κ) (a : Ref) :
    Respects R (CountedHeap.step host n inner (.tryRelease a)) := by
  intro h h' hR
  have hc := like.cascade hR none [a]
  unfold CountedHeap.step Heap.tryRelease
  simp only
  generalize h.cascade none [a] = p at hc
  generalize h'.cascade none [a] = q at hc
  obtain ⟨g, cause⟩ := p
  obtain ⟨g', cause'⟩ := q
  obtain ⟨hg, rfl⟩ := hc
  cases cause' <;> exact ⟨rfl, hg⟩

theorem register (n : Nat) (inner : Perform κ) (d : Descriptor κ) :
    Respects R (CountedHeap.step host n inner (.register d)) := by
  intro h h' hR
  have ht : h'.types = h.types := like.read (fun _ _ _ => rfl) hR
  unfold CountedHeap.step
  simp only [ht]
  cases h.types.register d with
  | error f => exact rfl
  | ok p =>
    refine ⟨rfl, ?_⟩
    have hw := like.write h.store p.2 h.depth h.violations hR
    obtain ⟨ledger, tracer, rfl⟩ := like.same hR
    exact hw

theorem enterRecursion (n : Nat) (inner : Perform κ) :
    Respects R (CountedHeap.step host n inner .enterRecursion) := by
  intro h h' hR
  have hl := like.level hR
  have hw := like.write h.store h.types (h.depth + 1) h.violations hR
  obtain ⟨ledger, tracer, rfl⟩ := like.same hR
  unfold CountedHeap.step Heap.enterRecursion
  simp only [hl]
  cases h.ledger.tracker.checkDepth h.depth with
  | ok => exact ⟨rfl, hw⟩
  | error e => exact ⟨rfl, hR⟩

theorem leaveRecursion (n : Nat) (inner : Perform κ) :
    Respects R (CountedHeap.step host n inner .leaveRecursion) := by
  intro h h' hR
  have hw := like.write h.store h.types (h.depth - 1) h.violations hR
  obtain ⟨ledger, tracer, rfl⟩ := like.same hR
  exact ⟨rfl, hw⟩

theorem inspect (n : Nat) (inner : Perform κ) (q : Query) :
    Respects R (CountedHeap.step host n inner (.inspect q)) := by
  intro h h' hR
  have ha := like.read (consulting_plain host n) hR
  unfold CountedHeap.step
  simp only [ha]
  cases consulting host h n q with
  | error f => exact rfl
  | ok answer => exact ⟨rfl, hR⟩

theorem step (n : Nat) {inner : Perform κ} (hi : ∀ r, Respects R (inner r)) (r : Request κ) :
    Respects R (CountedHeap.step host n inner r) := by
  cases r with
  | none => exact like.hit _
  | bool value => exact like.hit _
  | short value => exact like.short value
  | allocate type payload => exact like.allocate type payload
  | tuple items => exact like.construct _ _
  | item a index => exact like.item _ a index
  | acquire a => exact like.newRef a
  | release a => exact fun h h' hR => ⟨rfl, like.release hR a⟩
  | tryRelease a => exact like.tryRelease host n inner a
  | unary op a => exact like.dispatch _ _ _ fun f => like.unaryHandler host hi f a
  | binary op a b => exact like.dispatch _ _ _ fun f => like.binaryHandler host hi f a b
  | power a b c => exact like.dispatch _ _ _ fun f => like.ternaryHandler host hi f a b c
  | compare op a b => exact like.compareConsuming host n op a b
  | fib a => exact Code.run_respects hi _
  | register d => exact like.register host n inner d
  | enterRecursion => exact like.enterRecursion host n inner
  | leaveRecursion => exact like.leaveRecursion host n inner
  | inspect q => exact like.inspect host n inner q

/-- **A request does the same to related heaps.** -/
theorem perform : ∀ (n : Nat) (r : Request κ), Respects R (CountedHeap.perform host n r)
  | 0, r => by
    unfold CountedHeap.perform
    refine like.step host 0 ?_ r
    exact fun _ _ _ _ => rfl
  | n + 1, r => like.step host (n + 1) (perform n) r

end Likeness

/-! ### Two heaps to which the same is done -/

/-- Heaps to which the same was done, beginning with `first` and `first'`: the same
requests, and replacements of the tracker or the sink of the kind `allows`. -/
inductive Abreast (host : Host κ) (allows : (Heap κ → Heap κ) → Prop) (first first' : Heap κ) :
    Heap κ → Heap κ → Prop
  | start : Abreast host allows first first' first first'
  | perform {h h' g g' : Heap κ} (r : Request κ) {x x' : r.Answer} : Abreast host allows first first' h h' →
      host.perform r h = .ok (x, g) → host.perform r h' = .ok (x', g') → Abreast host allows first first' g g'
  | configure {h h' : Heap κ} {replace : Heap κ → Heap κ} : Abreast host allows first first' h h' →
      allows replace → Abreast host allows first first' (replace h) (replace h')

namespace Abreast

variable {host : Host κ} {allows : (Heap κ → Heap κ) → Prop} {first first' h h' : Heap κ}
  {R : Heap κ → Heap κ → Prop}

/-- Heaps that are alike at first stay alike. -/
theorem alike (like : Likeness R) (replaced : ∀ {replace h h'}, allows replace → R h h' → R (replace h) (replace h'))
    (start : R first first') (both : Abreast host allows first first' h h') : R h h' := by
  induction both with
  | start => exact start
  | perform r _ done done' ih =>
    have hm := like.perform host host.frames r _ _ ih
    unfold Host.perform at done done'
    rw [done, done'] at hm
    exact hm.2
  | configure _ ha ih => exact replaced ha ih

/-- The same requests to both, one after the other. -/
theorem performAll {requests : List (Request κ)} {g g' : Heap κ} (both : Abreast host allows first first' h h')
    (hp : host.performAll requests h = .ok g) (hp' : host.performAll requests h' = .ok g') :
    Abreast host allows first first' g g' := by
  induction requests generalizing h h' with
  | nil =>
    cases hp
    cases hp'
    exact both
  | cons r requests ih =>
    rw [Host.performAll] at hp hp'
    cases hr : host.perform r h with
    | error f =>
      rw [hr] at hp
      cases hp
    | ok p =>
      cases hr' : host.perform r h' with
      | error f =>
        rw [hr'] at hp'
        cases hp'
      | ok p' =>
        rw [hr] at hp
        rw [hr'] at hp'
        exact ih (.perform r both hr hr') hp hp'

end Abreast

end CountedHeap
