/-
# Requests to twins

What two heaps that mirror each other are asked about corresponding references has
the same answer, and a request to one of two twins does what the request with renamed
references does to the other.

Queries change nothing, so all there is to show is that their answers are equal, by
induction on the depth of the native stack. Two items are the same object in one heap
if and only if they are in the other, so the comparison of tuples takes its short cut
in both or in neither. Requests follow, by the same induction; the code that a uniform
host runs for one twin follows the code that it runs for the other, and makes requests
that correspond.

Key definitions: `Reflects`, `Attuned`.
Key theorems: `consulting_reflects`, `Follows.run_matches`, `perform_attuned`.
-/
import CountedHeap.Proofs.Requests
import CountedHeap.Proofs.Twins

namespace CountedHeap

variable {κ : Role → Type} {α β : Type}

/-- Queries about renamed references have the same answers, renamed. -/
def Reflects (σ : Equiv.Perm Ref) (inner inner' : Consult) : Prop :=
  ∀ q : Query, inner' (q.map σ) = (inner q).map (q.answer σ σ)

/-- Requests do the same to twins. -/
def Attuned (inner : Perform κ) : Prop :=
  ∀ (r : Request κ) {σ : Equiv.Perm Ref} {rest : Multiset Ref} {h h' : Heap κ}, Twin σ (r.consumes + rest) h h' →
    (∀ a ∈ r.borrows, a ∈ rest) →
    Tandem (fun τ x y => y = r.answer σ τ x) r.makes rest σ (inner r h) (inner (r.map σ) h')

/-! ### Queries -/

/-- Code that asks the same gets the same. -/
theorem Echoes.run {σ : Equiv.Perm Ref} {inner inner' : Consult} (hi : Reflects σ inner inner')
    {code code' : Inspection α} (hc : Echoes σ code code') : code'.run inner' = code.run inner := by
  induction code generalizing code' with
  | done a =>
    subst hc
    rfl
  | call q next ih =>
    obtain ⟨next', rfl, hx⟩ := hc
    rw [Code.run, Code.run, hi]
    cases inner q with
    | error e => rfl
    | ok x => exact ih x (hx x)

/-- Items are compared in pairs; being the same object is seen through a renaming. -/
theorem Heap.itemsEqual_map {σ : Equiv.Perm Ref} {equal equal' : Ref → Ref → Except Fault (Except RunError Bool)}
    (he : ∀ x y, equal' (σ x) (σ y) = equal x y) : ∀ xs ys : List Ref,
      itemsEqual equal' (xs.map σ) (ys.map σ) = itemsEqual equal xs ys
  | x :: xs, y :: ys => by
    have ih := itemsEqual_map he xs ys
    rw [List.map_cons, List.map_cons, itemsEqual, itemsEqual, he, ih]
    by_cases hxy : x = y
    · rw [if_pos hxy, if_pos (congrArg σ hxy)]
    · rw [if_neg hxy, if_neg fun h => hxy (σ.injective h)]
  | [], _ => by
    rw [List.map_nil, itemsEqual, itemsEqual]
    all_goals simp
  | _ :: _, [] => by
    rw [List.map_nil, itemsEqual, itemsEqual]
    all_goals simp

section Consult

variable {host : Host κ} (uniform : host.Uniform) {σ : Equiv.Perm Ref} {h h' : Heap κ} (m : Mirror σ h h')
  {inner inner' : Consult} (hi : Reflects σ inner inner')
include uniform m hi

theorem Handler.truth_map (f : Handler κ .truth) (a : Ref) :
    f.truth host h' inner' (σ a) = f.truth host h inner a := by
  cases f with
  | builtin f =>
    cases f with
    | noneTruth => rfl
    | boolTruth =>
      unfold Handler.truth Heap.boolTruth
      simp only [m.boolValue?]
    | shortTruth =>
      unfold Handler.truth Heap.shortTruth
      simp only [m.shortValue?]
  | host name => exact (uniform.truth name σ a).run hi

theorem Handler.length_map (f : Handler κ .length) (a : Ref) :
    f.length host h' inner' (σ a) = f.length host h inner a := by
  cases f with
  | builtin f =>
    cases f with
    | tupleLength =>
      unfold Handler.length Heap.tupleLength
      simp only [m.tupleItems?]
      rcases h.tupleItems? a with e | items
      · rfl
      · cases items with
        | none => rfl
        | some items => simp [Except.map, bind, Except.bind]
  | host name => exact (uniform.length name σ a).run hi

theorem Handler.compare_map (f : Handler κ .comparison) (a b : Ref) :
    f.compare host h' inner' (σ a) (σ b) = f.compare host h inner a b := by
  cases f with
  | builtin f =>
    cases f with
    | boolEqual =>
      unfold Handler.compare Heap.boolEqual
      simp only [m.boolValue?]
    | shortEqual =>
      unfold Handler.compare Heap.shortEqual
      simp only [m.shortValue?]
    | shortLessOrEqual =>
      unfold Handler.compare Heap.shortLessOrEqual
      simp only [m.shortValue]
    | tupleEqual =>
      have he : ∀ x y, inner' (.compare .equal (σ x) (σ y)) = inner (.compare .equal x y) := fun x y => by
        refine (hi (.compare .equal x y)).trans ?_
        cases inner (.compare .equal x y) <;> rfl
      unfold Handler.compare Heap.tupleEqual
      simp only [m.tupleItems?]
      rcases h.tupleItems? a with e | xs
      · rfl
      rcases h.tupleItems? b with e | ys
      · rfl
      cases xs with
      | none => rfl
      | some xs =>
        cases ys with
        | none => rfl
        | some ys =>
          simp only [Except.map, bind, Except.bind, Option.map_some, List.length_map]
          rw [Heap.itemsEqual_map he]
  | host name => exact (uniform.comparison name σ a b).run hi

theorem consult_reflects : Reflects σ (consult host h inner) (consult host h' inner') := by
  intro q
  have same : ∀ {α : Type} {x y : Except Fault α}, x = y → x = y.map id := fun he => by
    rw [he, Except.map_id]
    rfl
  cases q with
  | object a => exact m.get a
  | typeName a => exact same (m.typeName a)
  | isTrue a =>
    refine same ?_
    unfold Query.map consult
    simp only [m.typeOf]
    refine bind_congr fun d => ?_
    split
    · exact Handler.truth_map uniform m hi _ a
    · rw [Handler.length_map uniform m hi]
    · rfl
  | length a =>
    refine same ?_
    unfold Query.map consult
    simp only [m.typeOf]
    refine bind_congr fun d => ?_
    split
    · rw [Handler.length_map uniform m hi]
    · rfl
  | compare op a b =>
    refine same ?_
    unfold Query.map consult
    simp only [m.typeOf]
    refine bind_congr fun left => bind_congr fun right => ?_
    split
    · exact Handler.compare_map uniform m hi _ a b
    · rfl

end Consult

/-- **Heaps that mirror each other answer the same**, to any depth of the native stack. -/
theorem consulting_reflects {host : Host κ} (uniform : host.Uniform) {σ : Equiv.Perm Ref} {h h' : Heap κ}
    (m : Mirror σ h h') : ∀ n, Reflects σ (consulting host h n) (consulting host h' n)
  | 0 => consult_reflects uniform m fun _ => rfl
  | n + 1 => consult_reflects uniform m (consulting_reflects uniform m n)

theorem nested_reflects {host : Host κ} (uniform : host.Uniform) {σ : Equiv.Perm Ref} {h h' : Heap κ}
    (m : Mirror σ h h') : ∀ n, Reflects σ (nested host h n) (nested host h' n)
  | 0 => fun _ => rfl
  | n + 1 => consulting_reflects uniform m n

/-! ### Requests -/

section Code

variable {inner : Perform κ} (hi : Attuned inner) {σ : Equiv.Perm Ref} {held rest : Multiset Ref} {h h' : Heap κ}
include hi

/-- Code that follows other code does the same to a twin. -/
theorem Follows.run_matches {ends : Equiv.Perm Ref → Multiset Ref → α → β → Prop} {code : Procedure κ α}
    {code' : Procedure κ β} (hc : Follows ends σ held code code') (t : Twin σ (held + rest) h h') :
    Matches (fun p q => ∃ τ left, Keeps rest σ τ ∧ ends τ left p.1 q.1 ∧ Twin τ (left + rest) p.2 q.2)
      (code.run inner h) (code'.run inner h') := by
  induction code generalizing σ held h h' code' with
  | done a =>
    obtain ⟨b, rfl, hb⟩ := hc
    exact ⟨σ, held, .refl _ _, hb, t⟩
  | call r next ih =>
    obtain ⟨more, next', rfl, hb, rfl, hx⟩ := hc
    rw [add_assoc] at t
    have first := hi r t fun a ha => Multiset.mem_add.mpr (Or.inl (hb a ha))
    refine Matches.bind first fun p q hp => ?_
    obtain ⟨τ, keeps, hy, t'⟩ := hp
    rw [← add_assoc] at t'
    have last := ih p.1 (hx p.1 τ (keeps.mono (Multiset.subset_of_le (Multiset.le_add_right _ _)))) t'
    rw [← hy] at last
    refine Matches.mono last fun p q hp => ?_
    obtain ⟨υ, left, keeps', he, t''⟩ := hp
    exact ⟨υ, left, (keeps.mono (Multiset.subset_of_le (Multiset.le_add_left _ _))).trans keeps', he, t''⟩

/-- A handler of a uniform host does the same to a twin. What it forgets is held by no one. -/
theorem Follows.exec_tandem {code code' : Routine κ Ref}
    (hc : Follows (fun τ left x y => outcome 0 ({·}) x ≤ left ∧ Matches (Renamed τ) x y) σ held code.run code'.run)
    (t : Twin σ (held + rest) h h') :
    RunTandem Renamed ({·}) rest σ (code.exec inner h) (code'.exec inner h') := by
  refine Matches.mono (Follows.run_matches hi hc t) fun p q hp => ?_
  obtain ⟨τ, left, keeps, ⟨le, hm⟩, t'⟩ := hp
  exact ⟨τ, keeps, hm, t'.mono (add_le_add_left le rest)⟩

end Code

/-- An operator goes to corresponding operands, and if there is no handler both are given back. -/
theorem Heap.dispatch_tandem {σ : Equiv.Perm Ref} {rest : Multiset Ref} {h h' : Heap κ} {op : String}
    {find : Descriptor κ → Option α} {operands : List Ref} {call call' : α → RunM κ Ref}
    (t : Twin σ (operands + rest) h h')
    (hc : ∀ f g g', Twin σ (operands + rest) g g' → RunTandem Renamed ({·}) rest σ (call f g) (call' f g')) :
    RunTandem Renamed ({·}) rest σ (dispatch op find operands call h) (dispatch op find (operands.map σ) call' h') := by
  unfold dispatch
  rw [t.mirror.resolve]
  rcases h.resolve op find [] operands with f | e | ⟨f, event⟩
  · exact rfl
  · exact .done t.releaseAll.zero_add rfl
  · exact hc f _ _ (t.emit event event)

section Handlers

variable {host : Host κ} (uniform : host.Uniform) {inner : Perform κ} (hi : Attuned inner) {σ : Equiv.Perm Ref}
  {rest : Multiset Ref} {h h' : Heap κ}
include uniform hi

theorem Handler.unary_tandem (f : Handler κ .unary) {a : Ref} (t : Twin σ ([a] + rest) h h') :
    RunTandem Renamed ({·}) rest σ (f.unary host inner a h) (f.unary host inner (σ a) h') := by
  cases f with
  | builtin f => cases f <;> exact Heap.Short.unary_tandem t _ _
  | host name => exact (uniform.unary name σ a).exec_tandem hi t

theorem Handler.binary_tandem (f : Handler κ .binary) {a b : Ref} (t : Twin σ ([a, b] + rest) h h') :
    RunTandem Renamed ({·}) rest σ (f.binary host inner a b h) (f.binary host inner (σ a) (σ b) h') := by
  cases f with
  | builtin f =>
    cases f with
    | shortAdd | shortSubtract | shortMultiply => exact Heap.Short.arithmetic_tandem t _ _
    | shortRemainder | shortFloorDivide => exact Heap.Short.division_tandem t _ _
    | tupleConcat => exact Heap.Tuple.concat_tandem t
    | tupleSubscript => exact Heap.Tuple.subscript_tandem t
  | host name => exact (uniform.binary name σ a b).exec_tandem hi t

theorem Handler.ternary_tandem (f : Handler κ .ternary) {a b c : Ref} (t : Twin σ ([a, b, c] + rest) h h') :
    RunTandem Renamed ({·}) rest σ (f.ternary host inner a b c h) (f.ternary host inner (σ a) (σ b) (σ c) h') := by
  cases f with
  | builtin f =>
    cases f with
    | shortPower => exact Heap.Short.power_tandem t
  | host name => exact (uniform.ternary name σ a b c).exec_tandem hi t

end Handlers

theorem compareConsuming_tandem {host : Host κ} (uniform : host.Uniform) (n : Nat) (op : CompareOp) {a b : Ref}
    {σ : Equiv.Perm Ref} {rest : Multiset Ref} {h h' : Heap κ} (t : Twin σ ([a, b] + rest) h h') :
    RunTandem Same (fun _ => 0) rest σ (compareConsuming host n op a b h) (compareConsuming host n op (σ a) (σ b) h') := by
  unfold compareConsuming
  rw [show [σ a, σ b] = [a, b].map σ from rfl, t.mirror.resolve]
  rcases h.resolve op.symbol (·.comparison? op) [] [a, b] with f | e | ⟨f, event⟩
  · exact rfl
  · exact .done t.releaseAll.zero_add rfl
  · have t' := t.emit event event
    have he := f.compare_map uniform t'.mirror (nested_reflects uniform t'.mirror n) a b
    show RunTandem Same _ rest σ (do
        let answer ← f.compare host (h.emit event) (nested host (h.emit event) n) a b
        return (answer, (h.emit event).releaseAll [a, b])) (do
        let answer ← f.compare host (h'.emit event) (nested host (h'.emit event) n) (σ a) (σ b)
        return (answer, (h'.emit event).releaseAll ([a, b].map σ)))
    rw [he]
    cases f.compare host (h.emit event) (nested host (h.emit event) n) a b with
    | error f => exact rfl
    | ok answer =>
      refine .done ?_ (.of_eq σ answer)
      rw [outcome_const]
      exact t'.releaseAll.zero_add

/-- A result that may be a reference, as the answer to a request. -/
theorem Tandem.answer {σ : Equiv.Perm Ref} {rest : Multiset Ref} {x y : Except Fault (Except RunError Ref × Heap κ)}
    (hx : RunTandem Renamed ({·}) rest σ x y) : Tandem (fun τ a b => b = a.map τ) (outcome 0 ({·})) rest σ x y :=
  Matches.mono hx fun _ _ ⟨τ, keeps, hm, t⟩ => ⟨τ, keeps, hm.renamed, t⟩

theorem step_register (host : Host κ) (n : Nat) (inner : Perform κ) {h : Heap κ} {d : Descriptor κ}
    {p : TypeId × Registry κ} (added : h.types.register d = .ok p) :
    step host n inner (.register d) h = .ok (p.1, { h with types := p.2 }) := by
  unfold step
  simp only [added]
  rfl

theorem step_register_full (host : Host κ) (n : Nat) (inner : Perform κ) {h : Heap κ} {d : Descriptor κ} {f : Fault}
    (full : h.types.register d = .error f) : step host n inner (.register d) h = .error f := by
  unfold step
  simp only [full]
  rfl

/-- A request does the same to twins if the requests inside it do. -/
theorem step_attuned {host : Host κ} (uniform : host.Uniform) (n : Nat) {inner : Perform κ} (hi : Attuned inner) :
    Attuned (step host n inner) := by
  intro r σ rest h h' t hb
  have free : r.consumes = [] → Twin σ rest h h' := fun he => by
    rwa [he, Multiset.coe_nil, zero_add] at t
  cases r with
  | none =>
    have hr : Interned.none.index < h.interned.count :=
      Nat.lt_of_lt_of_le (by decide) (Nat.le_add_right Interned.firstShort _)
    exact Heap.hit_tandem (free rfl) hr
  | bool value =>
    have hr : (Interned.bool value).index < h.interned.count :=
      Nat.lt_of_lt_of_le (by cases value <;> decide) (Nat.le_add_right Interned.firstShort _)
    exact Heap.hit_tandem (free rfl) hr
  | short value => exact .answer (Heap.short_tandem (free rfl) value)
  | allocate type payload => exact .answer (Heap.allocate_tandem (free rfl) type payload)
  | tuple items => exact .answer (Heap.tuple_tandem t)
  | item a index => exact .answer (Heap.item_tandem (free rfl) (hb a List.mem_cons_self) _ index)
  | acquire a => exact Heap.newRef_tandem (free rfl) ((free rfl).live (hb a List.mem_cons_self))
  | release a => exact .done t.release.zero_add rfl
  | tryRelease a =>
    obtain ⟨t', fits, fits'⟩ := t.cascade none [a]
    show Tandem _ _ rest σ (step host n inner (.tryRelease a) h) (step host n inner (.tryRelease (σ a)) h')
    rw [step_tryRelease host n inner fits, step_tryRelease host n inner fits']
    exact .done t'.zero_add rfl
  | unary op a => exact .answer (Heap.dispatch_tandem t fun f g g' t' => f.unary_tandem uniform hi t')
  | binary op a b => exact .answer (Heap.dispatch_tandem t fun f g g' t' => f.binary_tandem uniform hi t')
  | power a b c => exact .answer (Heap.dispatch_tandem t fun f g g' t' => f.ternary_tandem uniform hi t')
  | compare op a b =>
    refine Matches.mono (compareConsuming_tandem uniform n op t) fun p q hp => ?_
    obtain ⟨τ, keeps, hm, t'⟩ := hp
    rw [outcome_const] at t'
    exact ⟨τ, keeps, hm.same, t'⟩
  | fib a =>
    have hc := (Routine.fibonacci_pursues (κ := κ) σ a).mono fun τ left x y h => (⟨h.2.1.ge, h.2.2⟩ : _ ∧ _)
    exact .answer (Follows.exec_tandem hi hc t)
  | register d =>
    have t' := free rfl
    show Tandem _ _ rest σ (step host n inner (.register d) h) (step host n inner (.register d) h')
    cases added : h.types.register d with
    | error f =>
      have added' : h'.types.register d = .error f := by rw [t'.mirror.types, added]
      rw [step_register_full host n inner added, step_register_full host n inner added']
      exact rfl
    | ok p =>
      have added' : h'.types.register d = .ok p := by rw [t'.mirror.types, added]
      rw [step_register host n inner added, step_register host n inner added']
      exact .done (t'.quiet (.register added) (.register added') rfl rfl { t'.mirror with types := rfl }).zero_add rfl
  | enterRecursion =>
    have t' := free rfl
    have hd : h'.ledger.tracker.checkDepth h'.depth = h.ledger.tracker.checkDepth h.depth := by
      unfold Tracker.checkDepth
      rw [t'.mirror.maxDepth, t'.mirror.depth]
    show Tandem _ _ rest σ (step host n inner .enterRecursion h) (step host n inner .enterRecursion h')
    unfold step Heap.enterRecursion
    simp only [hd]
    cases h.ledger.tracker.checkDepth h.depth with
    | ok => exact .done (t'.setDepth (· + 1)).zero_add rfl
    | error e => exact .done t'.zero_add rfl
  | leaveRecursion => exact .done ((free rfl).setDepth (· - 1)).zero_add rfl
  | inspect q =>
    have he := consulting_reflects uniform (free rfl).mirror n q
    show Tandem _ _ rest σ (do
        let answer ← consulting host h n q
        return (answer, h)) (do
        let answer ← consulting host h' n (q.map σ)
        return (answer, h'))
    rw [he]
    cases consulting host h n q with
    | error f => exact rfl
    | ok answer => exact .done (free rfl).zero_add rfl

/-- **Requests do the same to twins**, to any depth of the native stack. -/
theorem perform_attuned {host : Host κ} (uniform : host.Uniform) : ∀ n, Attuned (perform host n)
  | 0 => step_attuned uniform 0 fun _ _ _ _ _ _ _ => rfl
  | n + 1 => step_attuned uniform (n + 1) (perform_attuned uniform n)

end CountedHeap
