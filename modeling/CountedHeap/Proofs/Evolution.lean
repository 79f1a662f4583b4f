/-
# Every request is a trace of single steps

Built-in operations, handlers of a host and the requests inside them change a
heap by the steps of `Change` and by nothing else, whatever references they are
given; and none of these steps replaces the tracker or the sink, or makes an object
that is interned. The proof follows the operations from the release of one reference up
to `perform`, and the calls inside a call by induction on the depth of the native stack.

A run passes through more heaps than those between its requests. `Moment` has all
of them, so that what each single step keeps holds inside a request too.

Key definitions: `Interned.find?`, `Evolves`, `Stepwise`, `Reached`, `Moment`, `Sustained`.
Key theorems: `perform_stepwise`, `Reached.evolves_sparing`, `Reached.wellFormed`,
`Moment.perform`, `Sustained.perform`.
-/
import CountedHeap.Dispatch
import CountedHeap.Proofs.Ends
import CountedHeap.Proofs.WellFormed

namespace CountedHeap

variable {κ : Role → Type} {α β : Type}

/-- The interned object with a payload, if there is one. -/
def Interned.find? (i : Interned) : Payload → Option Ref
  | .none => some Interned.none
  | .bool value => some (Interned.bool value)
  | .short value => i.short? value
  | .tuple _ | .host _ => Option.none

/-- The object that a step makes, if it makes one, is not like an interned one. -/
def Act.Spares (i : Interned) : Act → Prop
  | .make _ new => i.find? new.payload = none
  | _ => True

/-- Steps never change which objects are interned. -/
theorem Trace.interned {h g : Heap κ} {acts : List Act} (t : Trace h acts g) : g.interned = h.interned :=
  t.induct (P := fun g => g.interned = h.interned) (fun c ih => c.layout.1.trans ih) rfl

/-- Single steps lead from one heap to the other, none of which replaces the tracker or the sink, or makes an
object like an interned one. -/
def Evolves (h g : Heap κ) : Prop :=
  ∃ acts, Trace h acts g ∧ .configure ∉ acts ∧ ∀ a ∈ acts, a.Spares h.interned

theorem Evolves.refl (h : Heap κ) : Evolves h h := ⟨[], .nil, List.not_mem_nil, List.forall_mem_nil _⟩

theorem Evolves.trans {h g h' : Heap κ} (first : Evolves h g) (last : Evolves g h') : Evolves h h' := by
  obtain ⟨acts, t, ht, first⟩ := first
  obtain ⟨rest, u, hu, last⟩ := last
  rw [t.interned] at last
  refine ⟨acts ++ rest, t.append u, fun hin => ?_, List.forall_mem_append.mpr ⟨first, last⟩⟩
  rcases List.mem_append.mp hin with hin | hin
  · exact ht hin
  · exact hu hin

theorem Change.evolves {h g : Heap κ} {a : Act} (c : Change h a g) (ha : a ≠ .configure)
    (spares : a.Spares h.interned) : Evolves h g :=
  ⟨[a], .single c, fun hin => ha (List.mem_singleton.mp hin).symm, List.forall_mem_singleton.mpr spares⟩

/-- An operation that changes a heap by single steps only, if it ends well. -/
def Stepwise (m : HeapM κ α) : Prop := ∀ h, Ends (fun _ => True) (fun p => Evolves h p.2) (m h)

namespace Stepwise

theorem pure (a : α) : Stepwise (Pure.pure a : HeapM κ α) := fun h => Evolves.refl h

theorem bind {m : HeapM κ α} {f : α → HeapM κ β} (hm : Stepwise m) (hf : ∀ a, Stepwise (f a)) :
    Stepwise (m >>= f) := by
  intro h
  refine Ends.heapBind (hm h) fun a g hg => ?_
  exact (hf a g).mono fun p hp => hg.trans hp

/-- Operations that may fail, one after the other. -/
theorem runBind {m : RunM κ α} {f : α → RunM κ β} (hm : Stepwise m) (hf : ∀ a, Stepwise (f a)) :
    Stepwise (m >>= f : RunM κ β) := by
  intro h
  refine Ends.runBind (hm h) (fun a g hg => ?_) (fun e g hg => hg)
  exact (hf a g).mono fun p hp => hg.trans hp

theorem lift {m : HeapM κ α} (hm : Stepwise m) : Stepwise (ExceptT.lift m : RunM κ α) := by
  intro h
  exact Ends.lift ((hm h).mono fun p hp => hp)

theorem throw (e : RunError) : Stepwise (MonadExcept.throw e : RunM κ α) := fun h => Evolves.refl h

end Stepwise

namespace Heap

/-! ### Giving references back -/

theorem cascade_evolves (h : Heap κ) (first : Option Inconsistency) (pending : List Ref) :
    Evolves h (h.cascade first pending).1 := by
  fun_induction cascade h first pending with
  | case1 h first => exact Evolves.refl h
  | case2 h first r rest cause hv ih => exact ih
  | case3 h first r rest o hv ih => exact ((Change.drop hv).evolves nofun trivial).trans ih
  | case4 h first r rest o hv ih => exact ((Change.bury hv).evolves nofun trivial).trans ih

theorem release_evolves (h : Heap κ) (r : Ref) : Evolves h (h.release r) := by
  have hc := cascade_evolves h .none [r]
  unfold release tryRelease
  split
  · rename_i g he
    rw [he] at hc
    exact hc
  · rename_i g cause he
    rw [he] at hc
    exact hc.trans ((Change.skip cause).evolves nofun trivial)

theorem releaseAll_evolves : ∀ (refs : List Ref) (h : Heap κ), Evolves h (h.releaseAll refs)
  | [], h => Evolves.refl h
  | r :: rest, h => (release_evolves h r).trans (releaseAll_evolves rest (h.release r))

/-! ### Making objects -/

theorem newRef_stepwise (r : Ref) : Stepwise (newRef r : HeapM κ Ref) := by
  intro h
  unfold newRef acquire
  cases hr : h.object? r with
  | some o => exact (Change.acquire hr).evolves nofun trivial
  | none => trivial

theorem hit_stepwise {r : Ref} {h : Heap κ} (hr : r.index < h.interned.count) :
    Ends (fun _ => True) (fun p => Evolves h p.2) (hit r h) := by
  refine (newRef_stepwise r (h.emit (.hit r))).mono fun p hp => ?_
  exact ((Change.hit hr).evolves nofun trivial).trans hp

theorem construct_stepwise {type : TypeId} {payload : Payload} {h : Heap κ} (fits : payload.Fits type)
    (spares : h.interned.find? payload = .none) :
    Ends (fun _ => True) (fun p => Evolves h p.2) (construct type payload h) := by
  unfold construct
  refine Ends.bind (P := fun d => h.types.get? type = some d) ?_ fun d hd => ?_
  · unfold Registry.get
    cases h.types.get? type with
    | none => trivial
    | some d => rfl
  refine Ends.bind (Ends.self fun _ _ => trivial) fun p hp => ?_
  obtain ⟨result, g⟩ := p
  cases result with
  | ok r => exact (Change.make hd fits hp).evolves nofun spares
  | error e =>
    rw [takeBlock_refused hp]
    exact releaseAll_evolves _ _

theorem none_stepwise : Stepwise (none : HeapM κ Ref) :=
  fun h => hit_stepwise (show 0 < h.interned.count from Nat.lt_of_lt_of_le (by decide) (Nat.le_add_right _ _))

theorem bool_stepwise (value : Bool) : Stepwise (bool value : HeapM κ Ref) := by
  intro h
  refine hit_stepwise (Nat.lt_of_lt_of_le ?_ (Nat.le_add_right Interned.firstShort _))
  cases value <;> decide

theorem short_stepwise (value : Int32) : Stepwise (short value : RunM κ Ref) := by
  intro h
  unfold short
  cases hi : h.interned.short? value with
  | some r => exact Ends.lift (hit_stepwise (Interned.short?_lt hi))
  | none => exact construct_stepwise (show (Payload.short value).Fits .short from rfl) hi

theorem tuple_stepwise (items : List Ref) : Stepwise (tuple items : RunM κ Ref) :=
  fun _ => construct_stepwise rfl rfl

theorem allocate_stepwise (type : TypeId) (payload : Int64) : Stepwise (allocate type payload : RunM κ Ref) := by
  intro h
  unfold allocate
  by_cases hb : type.isBuiltin = true
  · rw [hb]
    exact Evolves.refl h
  · rw [Bool.not_eq_true] at hb
    split
    · exact Evolves.refl h
    · exact construct_stepwise (show (Payload.host payload).Fits type from hb) rfl

/-! ### Handlers -/

/-- The search for a handler reports a dispatch, and it ends if the types of the operands can be found. -/
theorem resolve_ends {E : Fault → Prop} {h : Heap κ} (op : String) (find : Descriptor κ → Option α) :
    ∀ {operands : List Ref} {seen : List String}, (∀ a ∈ operands, Ends E (fun _ => True) (h.typeOf a)) →
      Ends E (fun x => ∀ f event, x = .ok (f, event) → ∃ op name position, event = .dispatch op name position)
        (h.resolve op find seen operands)
  | [], _, _ => fun f event he => by cases he
  | a :: operands, seen, known => by
    refine Ends.lookBind (known a List.mem_cons_self) fun d _ => ?_
    cases find d with
    | some f =>
      intro f event he
      cases he
      exact ⟨_, _, _, rfl⟩
    | none => exact resolve_ends op find fun a ha => known a (List.mem_cons_of_mem _ ha)

/-- What follows on the search for a handler, whether there is one or not. -/
theorem resolve_bind {E : Fault → Prop} {Q : β → Prop} {h : Heap κ} {op : String} {find : Descriptor κ → Option α}
    {operands : List Ref} {next : Except RunError (α × Event) → Except Fault β}
    (known : ∀ a ∈ operands, Ends E (fun _ => True) (h.typeOf a))
    (error : ∀ e, h.resolve op find [] operands = .ok (.error e) → Ends E Q (next (.error e)))
    (ok : ∀ f op' name position, h.resolve op find [] operands = .ok (.ok (f, .dispatch op' name position)) →
      Ends E Q (next (.ok (f, .dispatch op' name position)))) :
    Ends E Q (bind (m := Except Fault) (h.resolve op find [] operands) next) := by
  refine Ends.bind (resolve_ends op find known).remember fun resolved hp => ?_
  obtain ⟨hr, hevent⟩ := hp
  cases resolved with
  | error e => exact error e hr
  | ok p =>
    obtain ⟨f, event⟩ := p
    obtain ⟨op', name, position, rfl⟩ := hevent f event rfl
    exact ok f op' name position hr

theorem reading_stepwise (f : Heap κ → ReadM α) : Stepwise (reading f : RunM κ α) := by
  intro h
  unfold reading
  exact Ends.bind (.always _) fun _ _ => Evolves.refl h

theorem item_stepwise (op : String) (a : Ref) (index : Int) : Stepwise (item op a index : RunM κ Ref) :=
  .runBind (reading_stepwise _) fun r => .lift (newRef_stepwise r)

theorem consuming_stepwise (refs : List Ref) {body : RunM κ α} (hb : Stepwise body) :
    Stepwise (consuming refs body) := by
  intro h
  unfold consuming
  refine Ends.bind (hb h) fun p hp => ?_
  exact hp.trans (releaseAll_evolves refs p.2)

theorem Short.checked_stepwise (op : String) (v : Option Int32) : Stepwise (Short.checked op v : RunM κ Int32) := by
  cases v with
  | some v => exact .pure _
  | none => exact .throw _

theorem Short.unary_stepwise (op : UnaryOp) (f : Int32 → Option Int32) (a : Ref) :
    Stepwise (Short.unary op f a : RunM κ Ref) :=
  consuming_stepwise _ (.runBind (reading_stepwise _) fun _ =>
    .runBind (checked_stepwise _ _) fun v => short_stepwise v)

theorem Short.arithmetic_stepwise (op : BinaryOp) (f : Int32 → Int32 → Option Int32) (a b : Ref) :
    Stepwise (Short.arithmetic op f a b : RunM κ Ref) :=
  consuming_stepwise _ (.runBind (reading_stepwise _) fun _ => .runBind (reading_stepwise _) fun _ =>
    .runBind (checked_stepwise _ _) fun v => short_stepwise v)

theorem Short.division_stepwise (op : BinaryOp) (f : Int32 → Int32 → Option Int32) (a b : Ref) :
    Stepwise (Short.division op f a b : RunM κ Ref) := by
  refine consuming_stepwise _ (.runBind (reading_stepwise _) fun x => .runBind (reading_stepwise _) fun y => ?_)
  split
  · exact .throw _
  · exact .runBind (checked_stepwise _ _) fun v => short_stepwise v

theorem Short.power_stepwise (a b c : Ref) : Stepwise (Short.power a b c : RunM κ Ref) := by
  refine consuming_stepwise _ (.runBind (reading_stepwise _) fun x => .runBind (reading_stepwise _) fun e => ?_)
  split
  · exact .throw _
  refine .runBind (reading_stepwise _) fun modulus => ?_
  split
  · exact .runBind (checked_stepwise _ _) fun v => short_stepwise v
  refine .runBind (reading_stepwise _) fun m => ?_
  split
  · exact .throw _
  · exact short_stepwise _

theorem Tuple.share_stepwise : ∀ items : List Ref, Stepwise (Tuple.share items : HeapM κ Unit)
  | [] => .pure ()
  | r :: rest => .bind (newRef_stepwise r) fun _ => share_stepwise rest

theorem Tuple.concat_stepwise (a b : Ref) : Stepwise (Tuple.concat a b : RunM κ Ref) :=
  consuming_stepwise _ (.runBind (reading_stepwise _) fun _ => .runBind (reading_stepwise _) fun _ =>
    .runBind (.lift (share_stepwise _)) fun _ => tuple_stepwise _)

theorem Tuple.subscript_stepwise (a b : Ref) : Stepwise (Tuple.subscript a b : RunM κ Ref) :=
  consuming_stepwise _ (.runBind (reading_stepwise _) fun _ => item_stepwise _ _ _)

/-- An operator changes the heap as its handler does. -/
theorem dispatch_stepwise (op : String) (find : Descriptor κ → Option α) (operands : List Ref)
    {call : α → RunM κ Ref} (hc : ∀ f, Stepwise (call f)) : Stepwise (dispatch op find operands call) := by
  intro h
  refine resolve_bind (fun _ _ => .always _) (fun e _ => releaseAll_evolves operands h) fun f op' name position _ => ?_
  exact (hc f _).mono fun p hp => ((Change.dispatch op' name position).evolves nofun trivial).trans hp

end Heap

/-! ### Requests -/

/-- Code changes a heap by steps if each of its requests does. -/
theorem Code.run_stepwise {inner : Perform κ} (hi : ∀ r, Stepwise (inner r)) :
    ∀ code : Procedure κ α, Stepwise (code.run inner)
  | .done a => .pure a
  | .call r next => .bind (hi r) fun x => run_stepwise hi (next x)

namespace Handler

variable (host : Host κ) {inner : Perform κ} (hi : ∀ r, Stepwise (inner r))
include hi

theorem unary_stepwise (f : Handler κ .unary) (a : Ref) : Stepwise (f.unary host inner a) := by
  cases f with
  | builtin b => cases b <;> exact Heap.Short.unary_stepwise _ _ _
  | host name => exact Code.run_stepwise hi _

theorem binary_stepwise (f : Handler κ .binary) (a b : Ref) : Stepwise (f.binary host inner a b) := by
  cases f with
  | builtin f =>
    cases f with
    | shortAdd | shortSubtract | shortMultiply => exact Heap.Short.arithmetic_stepwise _ _ _ _
    | shortRemainder | shortFloorDivide => exact Heap.Short.division_stepwise _ _ _ _
    | tupleConcat => exact Heap.Tuple.concat_stepwise _ _
    | tupleSubscript => exact Heap.Tuple.subscript_stepwise _ _
  | host name => exact Code.run_stepwise hi _

theorem ternary_stepwise (f : Handler κ .ternary) (a b c : Ref) : Stepwise (f.ternary host inner a b c) := by
  cases f with
  | builtin f =>
    cases f with
    | shortPower => exact Heap.Short.power_stepwise _ _ _
  | host name => exact Code.run_stepwise hi _

end Handler

theorem compareConsuming_stepwise (host : Host κ) (n : Nat) (op : CompareOp) (a b : Ref) :
    Stepwise (compareConsuming host n op a b) := by
  intro h
  refine Heap.resolve_bind (fun _ _ => .always _) (fun e _ => Heap.releaseAll_evolves _ h)
    fun f op' name position _ => ?_
  refine Ends.bind (.always _) fun answer _ => ?_
  exact ((Change.dispatch op' name position).evolves nofun trivial).trans (Heap.releaseAll_evolves _ _)

theorem step_stepwise (host : Host κ) (n : Nat) {inner : Perform κ} (hi : ∀ r, Stepwise (inner r))
    (r : Request κ) : Stepwise (step host n inner r) := by
  cases r with
  | none => exact Heap.none_stepwise
  | bool value => exact Heap.bool_stepwise value
  | short value => exact Heap.short_stepwise value
  | allocate type payload => exact Heap.allocate_stepwise type payload
  | tuple items => exact Heap.tuple_stepwise items
  | item a index => exact Heap.item_stepwise _ a index
  | acquire a => exact Heap.newRef_stepwise a
  | release a => exact fun h => Heap.release_evolves h a
  | tryRelease a =>
    intro h
    have hc := Heap.cascade_evolves h none [a]
    unfold step Heap.tryRelease
    simp only
    split
    · rename_i g he
      rw [he] at hc
      exact hc
    · rename_i g cause he
      rw [he] at hc
      exact hc
  | unary op a => exact Heap.dispatch_stepwise _ _ _ fun f => f.unary_stepwise host hi a
  | binary op a b => exact Heap.dispatch_stepwise _ _ _ fun f => f.binary_stepwise host hi a b
  | power a b c => exact Heap.dispatch_stepwise _ _ _ fun f => f.ternary_stepwise host hi a b c
  | compare op a b => exact compareConsuming_stepwise host n op a b
  | fib a => exact Code.run_stepwise hi _
  | register d =>
    intro h
    refine Ends.bind (Ends.self fun _ _ => trivial) fun p hp => ?_
    exact (Change.register hp).evolves nofun trivial
  | enterRecursion =>
    intro h
    unfold step Heap.enterRecursion
    simp only
    cases h.ledger.tracker.checkDepth h.depth with
    | ok => exact (Change.setDepth (h.depth + 1)).evolves nofun trivial
    | error e => exact Evolves.refl h
  | leaveRecursion => exact fun h => (Change.setDepth (h.depth - 1)).evolves nofun trivial
  | inspect q =>
    intro h
    exact Ends.bind (.always _) fun _ _ => Evolves.refl h

/-- **A request changes a heap by single steps.** -/
theorem perform_stepwise (host : Host κ) : ∀ (n : Nat) (r : Request κ), Stepwise (perform host n r)
  | 0, r => by
    unfold perform
    refine step_stepwise host 0 ?_ r
    exact fun _ _ => trivial
  | n + 1, r => step_stepwise host (n + 1) (perform_stepwise host n) r

/-! ### All heaps that can be reached -/

/-- What a heap can become, whatever references its users and the handlers of the
host make up. -/
inductive Reached (host : Host κ) (first : Heap κ) : Heap κ → Prop
  | start : Reached host first first
  | perform {h g : Heap κ} (r : Request κ) {x : r.Answer} :
      Reached host first h → host.perform r h = .ok (x, g) → Reached host first g
  | withTracker {h : Heap κ} (t : Tracker) : Reached host first h → Reached host first (h.withTracker t)
  | withSink {h : Heap κ} (sink : Sink) : Reached host first h → Reached host first (h.withSink sink)

/-- The heap after some requests, whose answers are dropped. -/
def Host.performAll (host : Host κ) : List (Request κ) → Heap κ → Except Fault (Heap κ)
  | [], h => .ok h
  | r :: requests, h => do
    let (_, g) ← host.perform r h
    host.performAll requests g

/-- What is seen of a reference that is the answer, and of the heap with it. -/
def answered? (see : Ref → Heap κ → α) : Except Fault (Except RunError Ref × Heap κ) → Option α
  | .ok (.ok r, h) => some (see r h)
  | _ => none

theorem answered?_eq_some {see : Ref → Heap κ → α} {m : Except Fault (Except RunError Ref × Heap κ)} {a : α}
    (answered : answered? see m = some a) : ∃ r h, m = .ok (.ok r, h) ∧ see r h = a := by
  unfold answered? at answered
  split at answered
  · exact ⟨_, _, rfl, Option.some.inj answered⟩
  · cases answered

/-- What each request keeps, requests in a row keep. -/
theorem Host.performAll_induct {host : Host κ} {P : Heap κ → Prop}
    (step : ∀ {h g : Heap κ} (r : Request κ) (x : r.Answer), P h → host.perform r h = .ok (x, g) → P g) :
    ∀ {requests : List (Request κ)} {h g : Heap κ}, P h → host.performAll requests h = .ok g → P g
  | [], h, g, start, hp => by
    cases hp
    exact start
  | r :: requests, h, g, start, hp => by
    rw [Host.performAll] at hp
    cases hr : host.perform r h with
    | error f =>
      rw [hr] at hp
      cases hp
    | ok p =>
      rw [hr] at hp
      exact performAll_induct step (step r _ start hr) hp

namespace Reached

variable {host : Host κ} {c : Config} {first h g : Heap κ}

theorem performAll {requests : List (Request κ)} (reached : Reached host first h)
    (hp : host.performAll requests h = .ok g) : Reached host first g :=
  Host.performAll_induct (fun r _ reached done => .perform r reached done) reached hp

/-- The heap after some requests, with what is seen of it. -/
theorem of_performAll {α : Type} {requests : List (Request κ)} (see : Heap κ → α) {a : α}
    (hp : ((host.performAll requests first).toOption).map see = some a) :
    ∃ h, host.performAll requests first = .ok h ∧ see h = a := by
  obtain ⟨h, hx, he⟩ := Option.map_eq_some_iff.mp hp
  cases hr : host.performAll requests first with
  | error f =>
    rw [hr] at hx
    cases hx
  | ok g =>
    rw [hr] at hx
    cases hx
    exact ⟨h, rfl, he⟩

/-- **A run is a trace of single steps**, and what is interned is made by none of them. -/
theorem evolves_sparing (reached : Reached host first h) :
    ∃ acts, Trace first acts h ∧ ∀ a ∈ acts, a.Spares first.interned := by
  -- a replaced tracker or sink is one step more
  have configure : ∀ {h g : Heap κ}, (∃ acts, Trace first acts h ∧ ∀ a ∈ acts, a.Spares first.interned) →
      Change h .configure g → ∃ acts, Trace first acts g ∧ ∀ a ∈ acts, a.Spares first.interned := by
    rintro h g ⟨acts, t, spares⟩ c
    have last : Act.Spares first.interned .configure := trivial
    exact ⟨acts ++ [.configure], t.append (.single c),
      List.forall_mem_append.mpr ⟨spares, List.forall_mem_singleton.mpr last⟩⟩
  induction reached with
  | start => exact ⟨[], .nil, List.forall_mem_nil _⟩
  | perform r _ hr ih =>
    obtain ⟨acts, t, spares⟩ := ih
    obtain ⟨more, u, -, last⟩ := (perform_stepwise host host.frames r _).of_ok hr
    rw [t.interned] at last
    exact ⟨acts ++ more, t.append u, List.forall_mem_append.mpr ⟨spares, last⟩⟩
  | withTracker t _ ih => exact configure ih (.withTracker t)
  | withSink sink _ ih => exact configure ih (.withSink sink)

theorem evolves (reached : Reached host first h) : ∃ acts, Trace first acts h := by
  obtain ⟨acts, t, -⟩ := reached.evolves_sparing
  exact ⟨acts, t⟩

theorem wellFormed (reached : Reached host (.ofConfig c) h) : h.WellFormed := by
  obtain ⟨acts, t⟩ := reached.evolves
  exact t.wellFormed (Heap.WellFormed.ofConfig c)

end Reached

/-! ### The moments of a run -/

/-- The heaps that a run passes through, also inside a request, if the tracker and the
sink are replaced only as `allows` says. -/
inductive Moment (allows : Heap κ → Heap κ → Prop) (first : Heap κ) : Heap κ → Prop
  | start : Moment allows first first
  | step {h g : Heap κ} {a : Act} : Moment allows first h → Change h a g → a ≠ .configure → Moment allows first g
  | configure {h g : Heap κ} : Moment allows first h → allows h g → Moment allows first g

namespace Moment

variable {allows : Heap κ → Heap κ → Prop} {first h g : Heap κ}

theorem trace {acts : List Act} (moment : Moment allows first h) (t : Trace h acts g) (ha : .configure ∉ acts) :
    Moment allows first g := by
  induction t with
  | nil => exact moment
  | cons c _ ih =>
    refine ih (moment.step c ?_) fun hin => ha (List.mem_cons_of_mem _ hin)
    rintro rfl
    exact ha List.mem_cons_self

/-- **A request leads from moments to moments.** -/
theorem perform (host : Host κ) (r : Request κ) {x : r.Answer} (moment : Moment allows first h)
    (done : host.perform r h = .ok (x, g)) : Moment allows first g := by
  obtain ⟨acts, t, ha, -⟩ := (perform_stepwise host host.frames r h).of_ok done
  exact moment.trace t ha

theorem performAll (host : Host κ) {requests : List (Request κ)} (moment : Moment allows first h)
    (hp : host.performAll requests h = .ok g) : Moment allows first g :=
  Host.performAll_induct (fun r _ moment done => moment.perform host r done) moment hp

theorem exists_trace_of (moment : Moment allows first h) (configures : ∀ h g, allows h g → Change h .configure g) :
    ∃ acts, Trace first acts h := by
  induction moment with
  | start => exact ⟨[], .nil⟩
  | step _ change _ ih =>
    obtain ⟨acts, t⟩ := ih
    exact ⟨acts ++ [_], t.append (.single change)⟩
  | configure _ allowed ih =>
    obtain ⟨acts, t⟩ := ih
    exact ⟨acts ++ [_], t.append (.single (configures _ _ allowed))⟩

end Moment

/-- The moments of a run up to which `P` has held all the time. -/
inductive Sustained (P : Heap κ → Prop) (allows : Heap κ → Heap κ → Prop) (first : Heap κ) : Heap κ → Prop
  | start : P first → Sustained P allows first first
  | step {h g : Heap κ} {a : Act} :
      Sustained P allows first h → Change h a g → a ≠ .configure → P g → Sustained P allows first g
  | configure {h g : Heap κ} : Sustained P allows first h → allows h g → P g → Sustained P allows first g

namespace Sustained

variable {P : Heap κ → Prop} {allows : Heap κ → Heap κ → Prop} {first h g : Heap κ}

theorem moment (sustained : Sustained P allows first h) : Moment allows first h := by
  induction sustained with
  | start _ => exact .start
  | step _ change ha _ ih => exact ih.step change ha
  | configure _ allowed _ ih => exact ih.configure allowed

theorem holds (sustained : Sustained P allows first h) : P h := by
  cases sustained with
  | start now | step _ _ _ now | configure _ _ now => exact now

theorem mono {P' : Heap κ → Prop} {allows' : Heap κ → Heap κ → Prop} (sustained : Sustained P allows first h)
    (weaker : ∀ h, P h → P' h) (more : ∀ h g, allows h g → allows' h g) : Sustained P' allows' first h := by
  induction sustained with
  | start now => exact .start (weaker _ now)
  | step _ change ha now ih => exact ih.step change ha (weaker _ now)
  | configure _ allowed now ih => exact ih.configure (more _ _ allowed) (weaker _ now)

/-- Some step on the way from `h` to `g` is the first after which `P` does not hold. -/
def Lapses (P : Heap κ → Prop) (allows : Heap κ → Heap κ → Prop) (first h g : Heap κ) : Prop :=
  ∃ before a after m m', Trace h before m ∧ Sustained P allows first m ∧ Change m a m' ∧ ¬ P m' ∧ Trace m' after g

theorem trace {acts : List Act} (sustained : Sustained P allows first h) (t : Trace h acts g) (ha : .configure ∉ acts) :
    Sustained P allows first g ∨ Lapses P allows first h g := by
  induction t with
  | nil => exact .inl sustained
  | @cons h g _ a acts c t ih =>
    obtain ⟨hc, rest⟩ := not_or.mp (mt List.mem_cons.mpr ha)
    by_cases now : P g
    · rcases ih (sustained.step c (Ne.symm hc) now) rest with kept | ⟨before, b, after, m, m', tm, lapse⟩
      · exact .inl kept
      · exact .inr ⟨a :: before, b, after, m, m', .cons c tm, lapse⟩
    · exact .inr ⟨[], a, acts, h, g, .nil, sustained, c, now, t⟩

/-- **A request keeps `P` up, or one of its steps is the first that does not.** -/
theorem perform (host : Host κ) (r : Request κ) {x : r.Answer} (sustained : Sustained P allows first h)
    (done : host.perform r h = .ok (x, g)) : Sustained P allows first g ∨ Lapses P allows first h g := by
  obtain ⟨acts, t, ha, -⟩ := (perform_stepwise host host.frames r h).of_ok done
  exact sustained.trace t ha

end Sustained

end CountedHeap
