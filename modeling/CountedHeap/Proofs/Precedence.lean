/-
# The first operand with a handler decides

Every operator has a place in the descriptors of types: a slot in one of their three
tables, or beside them for a comparison. A type fills a place if it has the table and
the table has a handler in the slot; a table that is there and empty fills nothing. An
operator goes to the first operand, from the left, whose type fills its place, and
whichever operand that is, the handler gets all of them in the order they were given.
What happens before it is called is that the dispatch is reported. If no type fills the
place, the operands are given back and nothing of the kind is reported.

A comparison can also be asked of references that stay with the asker. Then the two
types are looked up at once and the search is written out, and nothing is reported. It
comes to the same answer, since a handler sees nothing of what was reported before. The
operands have to be live for that: the search that stops at the first operand never
looks at the second.

Key definitions: `Descriptor.Fills`, `Heap.OfType`, `Heap.NoDispatch`, `Heap.Dispatches`.
Key theorems: `Descriptor.handler?_eq_some_iff`, `Heap.resolve_first`,
`Heap.resolve_none`, `first_filled_decides`.
-/
import CountedHeap.Proofs.Operators

namespace CountedHeap

variable {κ : Role → Type} {α β : Type}

/-! ### Places and what stands in them -/

namespace Descriptor

/-- The handler stands in the place: the type has the table, and the table has it in the slot. -/
def Fills (d : Descriptor κ) : (c : Capability) → Handler κ c.role → Prop
  | .unary .negative, f => ∃ t, d.number = some t ∧ t.negative = some f
  | .unary .positive, f => ∃ t, d.number = some t ∧ t.positive = some f
  | .unary .absolute, f => ∃ t, d.number = some t ∧ t.absolute = some f
  | .unary .invert, f => ∃ t, d.number = some t ∧ t.invert = some f
  | .binary .add, f => ∃ t, d.number = some t ∧ t.add = some f
  | .binary .subtract, f => ∃ t, d.number = some t ∧ t.subtract = some f
  | .binary .multiply, f => ∃ t, d.number = some t ∧ t.multiply = some f
  | .binary .remainder, f => ∃ t, d.number = some t ∧ t.remainder = some f
  | .binary .floorDivide, f => ∃ t, d.number = some t ∧ t.floorDivide = some f
  | .binary .trueDivide, f => ∃ t, d.number = some t ∧ t.trueDivide = some f
  | .binary .shiftLeft, f => ∃ t, d.number = some t ∧ t.shiftLeft = some f
  | .binary .shiftRight, f => ∃ t, d.number = some t ∧ t.shiftRight = some f
  | .binary .bitAnd, f => ∃ t, d.number = some t ∧ t.bitAnd = some f
  | .binary .bitXor, f => ∃ t, d.number = some t ∧ t.bitXor = some f
  | .binary .bitOr, f => ∃ t, d.number = some t ∧ t.bitOr = some f
  | .binary .concat, f => ∃ t, d.sequence = some t ∧ t.concat = some f
  | .binary .subscript, f => ∃ t, d.mapping = some t ∧ t.subscript = some f
  | .power, f => ∃ t, d.number = some t ∧ t.power = some f
  | .truth, f => ∃ t, d.number = some t ∧ t.truth = some f
  | .sequenceLength, f => ∃ t, d.sequence = some t ∧ t.length = some f
  | .mappingLength, f => ∃ t, d.mapping = some t ∧ t.length = some f
  | .comparison .equal, f => d.equal = some f
  | .comparison .lessOrEqual, f => d.lessOrEqual = some f

/-- Nothing stands in the place. -/
def Lacks (d : Descriptor κ) (c : Capability) : Prop := ∀ f, ¬ d.Fills c f

/-- **A look-up finds what stands in the place**, in all places. -/
theorem handler?_eq_some_iff (d : Descriptor κ) (c : Capability) (f : Handler κ c.role) :
    d.handler? c = some f ↔ d.Fills c f := by
  cases c with
  | unary op => cases op <;> exact Option.bind_eq_some_iff
  | binary op => cases op <;> exact Option.bind_eq_some_iff
  | power => exact Option.bind_eq_some_iff
  | truth => exact Option.bind_eq_some_iff
  | sequenceLength => exact Option.bind_eq_some_iff
  | mappingLength => exact Option.bind_eq_some_iff
  | comparison op => cases op <;> exact Iff.rfl

theorem handler?_eq_none_iff (d : Descriptor κ) (c : Capability) : d.handler? c = none ↔ d.Lacks c := by
  rw [Option.eq_none_iff_forall_ne_some]
  exact forall_congr' fun f => not_congr (d.handler?_eq_some_iff c f)

end Descriptor

/-! ### The search -/

namespace Heap

/-- The reference names a live object, and this is the descriptor of its type. -/
def OfType (h : Heap κ) (a : Ref) (d : Descriptor κ) : Prop :=
  ∃ o, h.object? a = some o ∧ h.types.get? o.type = some d

variable {h : Heap κ} {op : String} {find : Descriptor κ → Option α} {operands : List Ref}
  {ds before after : List (Descriptor κ)} {d : Descriptor κ}

theorem OfType.typeOf {a : Ref} (type : h.OfType a d) : h.typeOf a = .ok d := by
  obtain ⟨o, live, known⟩ := type
  simp only [Heap.typeOf, Heap.get, live, Registry.get, known, bind, Except.bind]

/-- In a well-formed heap all live objects are of registered types. -/
theorem WellFormed.ofType (wf : h.WellFormed) : ∀ {operands : List Ref}, (∀ a ∈ operands, ∃ o, h.object? a = some o) →
    ∃ ds, List.Forall₂ h.OfType operands ds
  | [], _ => ⟨[], .nil⟩
  | a :: rest, live => by
    obtain ⟨o, ha⟩ := live a List.mem_cons_self
    obtain ⟨d, known, -⟩ := (wf.objects a o ha).sized
    obtain ⟨ds, types⟩ := ofType wf fun b hb => live b (List.mem_cons_of_mem a hb)
    exact ⟨d :: ds, .cons ⟨o, ha, known⟩ types⟩

/-- The search passes over the types that have nothing and stops at the first that has something. -/
theorem resolve_first {f : α} (types : List.Forall₂ h.OfType operands (before ++ d :: after))
    (passed : ∀ d' ∈ before, find d' = Option.none) (found : find d = some f) (seen : List String) :
    h.resolve op find seen operands = .ok (.ok (f, .dispatch op d.name (seen.length + before.length))) := by
  induction before generalizing operands seen with
  | nil =>
    obtain ⟨a, rest, type, -, rfl⟩ := List.forall₂_cons_right_iff.mp types
    exact resolve_found type.typeOf found
  | cons d' before ih =>
    obtain ⟨a, rest, type, others, rfl⟩ := List.forall₂_cons_right_iff.mp types
    have here : find d' = Option.none := passed d' List.mem_cons_self
    rw [resolve_passed type.typeOf here, ih others fun e he => passed e (List.mem_cons_of_mem d' he)]
    simp only [List.length_append, List.length_cons, List.length_nil]
    rw [show seen.length + (0 + 1) + before.length = seen.length + (before.length + 1) by omega]

/-- A search without success has seen all types, in order. -/
theorem resolve_none (types : List.Forall₂ h.OfType operands ds) (passed : ∀ d ∈ ds, find d = Option.none)
    (seen : List String) :
    h.resolve op find seen operands = .ok (.error (.unsupported op (seen ++ ds.map (·.name)))) := by
  induction types generalizing seen with
  | nil =>
    rw [List.map_nil, List.append_nil]
    rfl
  | cons type _ ih =>
    rw [resolve_passed type.typeOf (passed _ List.mem_cons_self), ih fun e he => passed e (List.mem_cons_of_mem _ he)]
    simp

/-! ### What is reported when operands are given back -/

/-- Events were reported on the way from one heap to the other, and none of them is a dispatch. -/
def NoDispatch (h g : Heap κ) : Prop :=
  ∃ events : List Event, (∀ e ∈ events, ∀ op name position, e ≠ .dispatch op name position) ∧
    g.tracer = events.foldl Tracer.observe h.tracer

theorem NoDispatch.of_eq {h g : Heap κ} (same : g.tracer = h.tracer) : h.NoDispatch g :=
  ⟨[], List.forall_mem_nil _, same⟩

theorem NoDispatch.trans {h g h' : Heap κ} (first : h.NoDispatch g) (last : g.NoDispatch h') : h.NoDispatch h' := by
  obtain ⟨events, none, told⟩ := first
  obtain ⟨events', none', told'⟩ := last
  refine ⟨events ++ events', fun e he => ?_, ?_⟩
  · rcases List.mem_append.mp he with he | he
    · exact none e he
    · exact none' e he
  · rw [told', told, List.foldl_append]

theorem NoDispatch.emit {h g : Heap κ} (quiet : h.NoDispatch g) {e : Event}
    (other : ∀ op name position, e ≠ .dispatch op name position) : h.NoDispatch (g.emit e) :=
  quiet.trans ⟨[e], fun _ he => List.mem_singleton.mp he ▸ other, rfl⟩

theorem bury_noDispatch (h : Heap κ) (r : Ref) (dead : Object) : h.NoDispatch (h.bury r dead) := by
  rcases bury_cases h r dead with ⟨c, -, -, parked⟩ | freed
  · rw [parked]
    exact (NoDispatch.of_eq rfl).emit nofun
  · rw [freed]
    exact (NoDispatch.of_eq rfl).emit nofun

theorem cascade_noDispatch (h : Heap κ) (first : Option Inconsistency) (pending : List Ref) :
    h.NoDispatch (h.cascade first pending).1 := by
  fun_induction cascade h first pending with
  | case1 h first => exact .of_eq rfl
  | case2 h first r rest cause hv ih => exact ih
  | case3 h first r rest o hv ih => exact (NoDispatch.of_eq rfl).trans ih
  | case4 h first r rest o hv ih => exact (bury_noDispatch h r o).trans ih

theorem release_noDispatch (h : Heap κ) (r : Ref) : h.NoDispatch (h.release r) := by
  have quiet := cascade_noDispatch h Option.none [r]
  unfold release tryRelease
  split
  · rename_i g done
    rwa [done] at quiet
  · rename_i g cause done
    rw [done] at quiet
    exact (quiet.trans (.of_eq rfl)).emit nofun

theorem releaseAll_noDispatch : ∀ (refs : List Ref) (h : Heap κ), h.NoDispatch (h.releaseAll refs)
  | [], _ => .of_eq rfl
  | r :: rest, h => (release_noDispatch h r).trans (releaseAll_noDispatch rest (h.release r))

/-! ### Operators -/

/-- What becomes of an operator on operands of the types `ds`, in order. The first type that fills the
place has its handler called, after a report with its name and position; if there is none, the
operands are given back and the error names all types. -/
structure Dispatches (h : Heap κ) (op : String) (place : Capability) (operands : List Ref)
    (ds : List (Descriptor κ)) (call : Handler κ place.role → RunM κ β)
    (x : Except Fault (Except RunError β × Heap κ)) : Prop where
  called : ∀ before d after f, ds = before ++ d :: after → (∀ d' ∈ before, d'.Lacks place) → d.Fills place f →
    x = call f (h.emit (.dispatch op d.name before.length))
  unsupported : (∀ d ∈ ds, d.Lacks place) →
    x = .ok (.error (.unsupported op (ds.map (·.name))), h.releaseAll operands) ∧
      h.NoDispatch (h.releaseAll operands)

/-- A computation dispatches if it goes on from the search as it should. -/
theorem Dispatches.of_resolve {place : Capability} {call : Handler κ place.role → RunM κ β}
    {x : Except Fault (Except RunError β × Heap κ)} (types : List.Forall₂ h.OfType operands ds)
    (ok : ∀ f event, h.resolve op (·.handler? place) [] operands = .ok (.ok (f, event)) → x = call f (h.emit event))
    (error : ∀ e, h.resolve op (·.handler? place) [] operands = .ok (.error e) →
      x = .ok (.error e, h.releaseAll operands)) :
    h.Dispatches op place operands ds call x where
  called before d after f split passed fills := by
    subst split
    have found : h.resolve op (·.handler? place) [] operands = .ok (.ok (f, .dispatch op d.name (0 + before.length))) :=
      resolve_first types (fun d' hd' => (d'.handler?_eq_none_iff place).mpr (passed d' hd'))
        ((d.handler?_eq_some_iff place f).mpr fills) []
    rw [Nat.zero_add] at found
    exact ok _ _ found
  unsupported passed := by
    have none : h.resolve op (·.handler? place) [] operands = .ok (.error (.unsupported op (ds.map (·.name)))) :=
      resolve_none types (fun d hd => (d.handler?_eq_none_iff place).mpr (passed d hd)) []
    exact ⟨error _ none, releaseAll_noDispatch operands h⟩

theorem dispatch_dispatches {place : Capability} (types : List.Forall₂ h.OfType operands ds)
    (call : Handler κ place.role → RunM κ Ref) :
    h.Dispatches op place operands ds call (dispatch op (·.handler? place) operands call h) := by
  refine .of_resolve types (fun f event found => ?_) fun e none => ?_
  · unfold dispatch
    rw [found]
    rfl
  · unfold dispatch
    rw [none]
    rfl

end Heap

section Comparisons

variable {h : Heap κ} {a b : Ref} {left right : Descriptor κ} (host : Host κ) (n : Nat) (op : CompareOp)

theorem compareConsuming_dispatches {ds : List (Descriptor κ)} (types : List.Forall₂ h.OfType [a, b] ds) :
    h.Dispatches op.symbol (.comparison op) [a, b] ds
      (fun f => Heap.consuming [a, b] (Heap.reading fun g => f.compare host g (nested host g n) a b))
      (compareConsuming host n op a b h) := by
  refine .of_resolve types (fun f event found => ?_) fun e none => ?_
  · have found : h.resolve op.symbol (·.comparison? op) [] [a, b] = .ok (.ok (f, event)) := found
    unfold compareConsuming Heap.consuming Heap.reading
    rw [found]
    show (f.compare host (h.emit event) (nested host (h.emit event) n) a b >>= _ : Except Fault _) = _
    dsimp only
    generalize f.compare host (h.emit event) (nested host (h.emit event) n) a b = answer
    cases answer <;> rfl
  · have none : h.resolve op.symbol (·.comparison? op) [] [a, b] = .ok (.error e) := none
    unfold compareConsuming
    rw [none]
    rfl

/-- The answer is read before the operands are given back. -/
theorem Heap.consuming_reading (h : Heap κ) (refs : List Ref) (look : Heap κ → ReadM β) :
    (consuming refs (reading look) h).map Prod.fst = look h := by
  unfold consuming reading
  cases look h <;> rfl

/-- **Both ways to compare give one answer.** -/
theorem compareConsuming_answer (ha : h.OfType a left) (hb : h.OfType b right) :
    (compareConsuming host n op a b h).map Prod.fst = consulting host h n (.compare op a b) := by
  have dispatches := compareConsuming_dispatches host n op (.cons ha (.cons hb .nil))
  -- the dispatch is reported before the handler is called, and no handler sees it
  have answer : ∀ (f : Handler κ .comparison) event,
      (Heap.consuming [a, b] (Heap.reading fun g => f.compare host g (nested host g n) a b) (h.emit event)).map
        Prod.fst = f.compare host h (nested host h n) a b := by
    intro f event
    rw [Heap.consuming_reading]
    exact compare_plain host n f a b h h.ledger (h.tracer.observe event)
  rw [consulting_eq]
  unfold consult
  dsimp only
  rw [ha.typeOf, hb.typeOf]
  simp only [bind, Except.bind]
  cases found : left.comparison? op with
  | some f =>
    have fills := (left.handler?_eq_some_iff (.comparison op) f).mp found
    rw [dispatches.called [] left [right] f rfl (List.forall_mem_nil _) fills]
    exact answer f _
  | none =>
    have lacks := (left.handler?_eq_none_iff (.comparison op)).mp found
    cases found' : right.comparison? op with
    | some f =>
      have fills := (right.handler?_eq_some_iff (.comparison op) f).mp found'
      rw [dispatches.called [left] right [] f rfl (List.forall_mem_singleton.mpr lacks) fills]
      exact answer f _
    | none =>
      have lacks' := (right.handler?_eq_none_iff (.comparison op)).mp found'
      obtain ⟨refused, -⟩ := dispatches.unsupported (List.forall_mem_cons.mpr ⟨lacks, List.forall_mem_singleton.mpr lacks'⟩)
      rw [refused]
      rfl

end Comparisons

/-! ### Requests -/

/-- What requests inside a call can rely on. -/
def within (host : Host κ) : Nat → Perform κ
  | 0 => fun _ => throw .stackOverflow
  | n + 1 => perform host n

theorem perform_eq (host : Host κ) (n : Nat) : perform host n = step host n (within host n) := by
  cases n <;> rfl

/-- **The first operand with a handler decides**, in any heap and for any operator and live operands. The first
operand, from the left, whose type fills the place has its handler called with the operands as they were given,
after one report of the dispatch; if there is none, the operands are given back and the error names all types
(`Heap.Dispatches`). This holds with however many calls `n` to spare. A comparison of references that stay has
the same answer. In heaps that can be reached, live operands always have types. -/
theorem first_filled_decides (host : Host κ) (n : Nat) (h : Heap κ) :
    (∀ op a ds, List.Forall₂ h.OfType [a] ds →
      h.Dispatches op.symbol (.unary op) [a] ds (fun f => f.unary host (within host n) a)
        (perform host n (.unary op a) h)) ∧
    (∀ op a b ds, List.Forall₂ h.OfType [a, b] ds →
      h.Dispatches op.symbol (.binary op) [a, b] ds (fun f => f.binary host (within host n) a b)
        (perform host n (.binary op a b) h)) ∧
    (∀ a b c ds, List.Forall₂ h.OfType [a, b, c] ds →
      h.Dispatches powerSymbol .power [a, b, c] ds (fun f => f.ternary host (within host n) a b c)
        (perform host n (.power a b c) h)) ∧
    (∀ op a b ds, List.Forall₂ h.OfType [a, b] ds →
      h.Dispatches op.symbol (.comparison op) [a, b] ds
        (fun f => Heap.consuming [a, b] (Heap.reading fun g => f.compare host g (nested host g n) a b))
        (perform host n (.compare op a b) h)) ∧
    (∀ op a b left right, h.OfType a left → h.OfType b right →
      (perform host n (.compare op a b) h).map Prod.fst = consulting host h n (.compare op a b)) ∧
    (∀ config, Reached host (.ofConfig config) h →
      ∀ operands, (∀ a ∈ operands, ∃ o, h.object? a = some o) → ∃ ds, List.Forall₂ h.OfType operands ds) := by
  rw [perform_eq]
  refine ⟨fun op a ds types => ?_, fun op a b ds types => ?_, fun a b c ds types => ?_, fun op a b ds types => ?_,
    fun op a b left right ha hb => ?_, fun config reached operands live => ?_⟩
  · exact Heap.dispatch_dispatches types _
  · exact Heap.dispatch_dispatches types _
  · exact Heap.dispatch_dispatches types _
  · exact compareConsuming_dispatches host n op types
  · exact compareConsuming_answer host n op ha hb
  · exact reached.wellFormed.ofType live

namespace Stock

/-- A type that divides and compares, and does nothing else. -/
def ratioType : Descriptor Name where
  name := "ratio"
  basicSize := 16
  number := some { trueDivide := some (.host .pair) }
  lessOrEqual := some (.host .payloadLessOrEqual)

/-- An object of that type, and a short, which has a table of numbers without division. -/
def ratioRequests : List (Request Name) := [.register ratioType, .allocate ⟨4⟩ 7, .short 1]

end Stock

/-- A short is divided by a ratio: the handler of the right operand is called, the dispatch is reported as one on the
second operand, and the short comes first in the pair that is made. A ratio has no powers, nor has `None`. `None` is
compared with a ratio by the handler of ratios, which finds no number in it, both ways. -/
theorem first_filled_decides_right : ∃ h : Heap Stock.Name,
    Reached (Stock.host 8) (.ofConfig Stock.sampleConfig) h ∧
    perform (Stock.host 8) 8 (.binary .trueDivide ⟨4⟩ ⟨3⟩) h =
      (Handler.host .pair).binary (Stock.host 8) (within (Stock.host 8) 8) ⟨4⟩ ⟨3⟩
        (h.emit (.dispatch "/" "ratio" 1)) ∧
    (∃ r g o, perform (Stock.host 8) 8 (.binary .trueDivide ⟨4⟩ ⟨3⟩) h = .ok (.ok r, g) ∧
      g.object? r = some o ∧ o.payload = .tuple [⟨4⟩, ⟨3⟩] ∧
      g.tracer.events.toList =
        [.allocate ⟨3⟩ "ratio" 16, .allocate ⟨4⟩ "short" 16, .dispatch "/" "ratio" 1, .allocate ⟨5⟩ "tuple" 40]) ∧
    perform (Stock.host 8) 8 (.power ⟨3⟩ Interned.none ⟨3⟩) h =
      .ok (.error (.unsupported "** or pow()" ["ratio", "NoneType", "ratio"]),
        h.releaseAll [⟨3⟩, Interned.none, ⟨3⟩]) ∧
    (perform (Stock.host 8) 8 (.compare .lessOrEqual Interned.none ⟨3⟩) h).map Prod.fst =
      .ok (.error (Stock.noPayload "NoneType")) ∧
    consulting (Stock.host 8) h 8 (.compare .lessOrEqual Interned.none ⟨3⟩) =
      .ok (.error (Stock.noPayload "NoneType")) := by
  have hrun : ((Stock.host 8).performAll Stock.ratioRequests
      ((Heap.ofConfig Stock.sampleConfig).withSink .record)).toOption.map
      (fun h => (h.types.get? .none, h.types.get? .short, h.types.get? ⟨4⟩, [0, 3, 4].map fun i => h.object? ⟨i⟩,
        consulting (Stock.host 8) h 8 (.compare .lessOrEqual Interned.none ⟨3⟩))) =
      some (some Registry.noneType, some Registry.shortType, some Stock.ratioType,
        [some ⟨1, .none, 0, 16, true, .none⟩, some ⟨1, ⟨4⟩, 0, 16, false, .host 7⟩,
          some ⟨1, .short, 0, 16, false, .short 1⟩], .ok (.error (Stock.noPayload "NoneType"))) := by
    with_unfolding_all rfl
  have hpair : ((Stock.host 8).performAll Stock.ratioRequests
      ((Heap.ofConfig Stock.sampleConfig).withSink .record)).toOption.bind
      (fun h => answered? (fun r g => ((g.object? r).map (·.payload), g.tracer.events.toList))
        (perform (Stock.host 8) 8 (.binary .trueDivide ⟨4⟩ ⟨3⟩) h)) =
      some (some (.tuple [⟨4⟩, ⟨3⟩]),
        [.allocate ⟨3⟩ "ratio" 16, .allocate ⟨4⟩ "short" 16, .dispatch "/" "ratio" 1, .allocate ⟨5⟩ "tuple" 40]) := by
    decide +kernel
  obtain ⟨h, done, seen⟩ := Reached.of_performAll _ hrun
  rw [done] at hpair
  obtain ⟨r, g, divided, paired⟩ := answered?_eq_some hpair
  obtain ⟨made, events⟩ := Prod.mk.inj paired
  obtain ⟨o, live, items⟩ := Option.map_eq_some_iff.mp made
  simp only [List.map_cons, List.map_nil, Prod.mk.injEq, List.cons.injEq, and_true] at seen
  obtain ⟨noneType, shortType, ratioType, ⟨none, ratio, short⟩, answer⟩ := seen
  have hnone : h.OfType Interned.none Registry.noneType := ⟨_, none, noneType⟩
  have hratio : h.OfType ⟨3⟩ Stock.ratioType := ⟨_, ratio, ratioType⟩
  have hshort : h.OfType ⟨4⟩ Registry.shortType := ⟨_, short, shortType⟩
  have noDivision : (Registry.shortType (κ := Stock.Name)).Lacks (.binary .trueDivide) :=
    (Descriptor.handler?_eq_none_iff _ _).mp rfl
  have noPower : ∀ d ∈ [Stock.ratioType, Registry.noneType, Stock.ratioType], d.Lacks .power := by
    intro d hd
    apply (Descriptor.handler?_eq_none_iff d .power).mp
    simp only [List.mem_cons, List.not_mem_nil, or_false] at hd
    rcases hd with rfl | rfl | rfl <;> rfl
  obtain ⟨-, binary, power, -, compare, -⟩ := first_filled_decides (Stock.host 8) 8 h
  refine ⟨h, .performAll (.withSink .record .start) done, ?_, ⟨r, g, o, divided, live, items, events⟩, ?_, ?_, answer⟩
  · exact (binary .trueDivide ⟨4⟩ ⟨3⟩ _ (.cons hshort (.cons hratio .nil))).called [Registry.shortType] Stock.ratioType
      [] (.host .pair) rfl (List.forall_mem_singleton.mpr noDivision) ⟨_, rfl, rfl⟩
  · exact ((power ⟨3⟩ Interned.none ⟨3⟩ _ (.cons hratio (.cons hnone (.cons hratio .nil)))).unsupported noPower).1
  · rw [compare .lessOrEqual Interned.none ⟨3⟩ _ _ hnone hratio, answer]

end CountedHeap
