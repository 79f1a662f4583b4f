/-
# Code that does not see where objects are

Code gets references from its requests and passes them on. Whether it can tell two
heaps apart that have the same objects in different slots depends on what else it
does with them. `Follows ends σ held code code'` says that `code'` does the same as
`code` with corresponding references, where `σ` gives the correspondence: it makes
the same requests with renamed references, and goes on in the same way with renamed
answers. References that code no longer holds may stand for something else later
on, so after each request the correspondence may be any other one that agrees on
what code holds beside the request (`Keeps`). A host is uniform if each of its
handlers follows itself from its operands to renamed operands.

Code that follows itself settles what it holds, so one walk over the stock handlers
shows that they are uniform and that they are disciplined.

Key definitions: `Echoes`, `Follows`, `Pursues`, `Host.Uniform`.
Key theorems: `Pursues.settles`, `Routine.fibonacci_pursues`, `Stock.host_uniform`,
`Stock.host_disciplined`.
-/
import Mathlib.Tactic.Abel
import CountedHeap.Proofs.Renaming

namespace CountedHeap

variable {κ : Role → Type} {α β γ δ : Type}

/-- `τ` goes on with `σ` on `kept`. -/
def Keeps (kept : Multiset Ref) (σ τ : Equiv.Perm Ref) : Prop := ∀ a ∈ kept, τ a = σ a

/-- Both fail with the same error, or both have results that are related. -/
def Matches {ε : Type} (R : α → β → Prop) : Except ε α → Except ε β → Prop
  | .ok a, .ok b => R a b
  | .error e, .error e' => e = e'
  | _, _ => False

/-- Code that asks about renamed references and ends with the same. -/
def Echoes (f : Ref → Ref) : Inspection α → Inspection α → Prop
  | .done a, code' => code' = .done a
  | .call q next, code' => ∃ next', code' = .call (q.map f) next' ∧ ∀ x, Echoes f (next x) (next' (q.answer f f x))

/-- `code'` does with renamed references what `code`, which holds `held`, does; and
`ends τ left a b` holds if they are done with `a` and `b`, where `τ` is the
correspondence at that moment and `left` is what `code` has. -/
def Follows (ends : Equiv.Perm Ref → Multiset Ref → α → β → Prop) :
    Equiv.Perm Ref → Multiset Ref → Procedure κ α → Procedure κ β → Prop
  | σ, held, .done a, code' => ∃ b, code' = .done b ∧ ends σ held a b
  | σ, held, .call r next, code' => ∃ rest next', held = r.consumes + rest ∧ (∀ a ∈ r.borrows, a ∈ rest) ∧
      code' = .call (r.map σ) next' ∧
      ∀ x τ, Keeps rest σ τ → Follows ends τ (r.makes x + rest) (next x) (next' (r.answer σ τ x))

/-- Results that are references correspond. -/
def Renamed (τ : Equiv.Perm Ref) (a b : Ref) : Prop := b = τ a

/-- The same, whatever corresponds to what. -/
def Same (_ : Equiv.Perm Ref) (a b : α) : Prop := b = a

/-- Routines that fail together, and have `failed` as before, or have related results and
`made a`, and `kept` as before. -/
def Pursues (R : Equiv.Perm Ref → α → α → Prop) (kept failed : Multiset Ref) (made : α → Multiset Ref)
    (σ : Equiv.Perm Ref) (held : Multiset Ref) (code code' : Routine κ α) : Prop :=
  Follows (fun τ left x y => Keeps (outcome failed (fun _ => kept) x) σ τ ∧ left = outcome failed made x ∧
    Matches (R τ) x y) σ held code.run code'.run

/-- Routines that end well and have `rest` as before. -/
def Yields (rest : Multiset Ref) (σ : Equiv.Perm Ref) (held : Multiset Ref) (code code' : Routine κ Unit) : Prop :=
  Follows (fun τ left x y => Keeps rest σ τ ∧ left = rest ∧ x = .ok () ∧ y = .ok ()) σ held code.run code'.run

/-- A host whose handlers do not see where objects are. -/
structure Host.Uniform (host : Host κ) : Prop where
  unary : ∀ name (σ : Equiv.Perm Ref) a,
    Follows (fun τ left x y => outcome 0 ({·}) x ≤ left ∧ Matches (Renamed τ) x y) σ [a]
      (host.unary name a).run (host.unary name (σ a)).run
  binary : ∀ name (σ : Equiv.Perm Ref) a b,
    Follows (fun τ left x y => outcome 0 ({·}) x ≤ left ∧ Matches (Renamed τ) x y) σ [a, b]
      (host.binary name a b).run (host.binary name (σ a) (σ b)).run
  ternary : ∀ name (σ : Equiv.Perm Ref) a b c,
    Follows (fun τ left x y => outcome 0 ({·}) x ≤ left ∧ Matches (Renamed τ) x y) σ [a, b, c]
      (host.ternary name a b c).run (host.ternary name (σ a) (σ b) (σ c)).run
  truth : ∀ name (σ : Equiv.Perm Ref) a, Echoes σ (host.truth name a) (host.truth name (σ a))
  length : ∀ name (σ : Equiv.Perm Ref) a, Echoes σ (host.length name a) (host.length name (σ a))
  comparison : ∀ name (σ : Equiv.Perm Ref) a b,
    Echoes σ (host.comparison name a b).run (host.comparison name (σ a) (σ b)).run

/-! ### Rules -/

namespace Keeps

variable {kept kept' : Multiset Ref} {σ τ υ : Equiv.Perm Ref}

theorem refl (kept : Multiset Ref) (σ : Equiv.Perm Ref) : Keeps kept σ σ := fun _ _ => rfl

theorem zero (σ τ : Equiv.Perm Ref) : Keeps 0 σ τ := fun a ha => absurd ha (Multiset.notMem_zero a)

theorem trans (first : Keeps kept σ τ) (last : Keeps kept τ υ) : Keeps kept σ υ :=
  fun a ha => (last a ha).trans (first a ha)

theorem mono (keeps : Keeps kept' σ τ) (sub : kept ⊆ kept') : Keeps kept σ τ := fun a ha => keeps a (sub ha)

/-- Kept references are renamed as before. -/
theorem map_eq {refs : List Ref} (keeps : Keeps kept σ τ) (sub : ∀ a ∈ refs, a ∈ kept) : refs.map τ = refs.map σ :=
  List.map_congr_left fun a ha => keeps a (sub a ha)

end Keeps

namespace Matches

variable {ε : Type} {R R' : α → β → Prop}

theorem cases {x : Except ε α} {y : Except ε β} (h : Matches R x y) :
    (∃ a b, x = .ok a ∧ y = .ok b ∧ R a b) ∨ ∃ e, x = .error e ∧ y = .error e := by
  rcases x with e | a
  · rcases y with e' | b
    · exact Or.inr ⟨e, rfl, congrArg Except.error (Eq.symm h)⟩
    · exact h.elim
  · rcases y with e' | b
    · exact h.elim
    · exact Or.inl ⟨a, b, rfl, rfl, h⟩

theorem mono {x : Except ε α} {y : Except ε β} (h : Matches R x y) (weaker : ∀ a b, R a b → R' a b) :
    Matches R' x y := by
  rcases h.cases with ⟨a, b, rfl, rfl, hR⟩ | ⟨e, rfl, rfl⟩
  · exact weaker a b hR
  · exact rfl

/-- One part after the other. -/
theorem bind {R' : γ → δ → Prop} {x : Except ε α} {y : Except ε β} {f : α → Except ε γ} {f' : β → Except ε δ}
    (hx : Matches R x y) (hf : ∀ a b, R a b → Matches R' (f a) (f' b)) : Matches R' (x >>= f) (y >>= f') := by
  rcases hx.cases with ⟨a, b, rfl, rfl, hR⟩ | ⟨e, rfl, rfl⟩
  · exact hf a b hR
  · exact rfl

/-- Two results that correspond are one and its renaming. -/
theorem renamed {τ : Equiv.Perm Ref} {x y : Except ε Ref} (h : Matches (Renamed τ) x y) : y = x.map τ := by
  rcases h.cases with ⟨a, b, rfl, rfl, hR⟩ | ⟨e, rfl, rfl⟩
  · exact congrArg Except.ok hR
  · rfl

theorem of_map (τ : Equiv.Perm Ref) (x : Except ε Ref) : Matches (Renamed τ) x (x.map τ) := by
  cases x with
  | ok a => exact rfl
  | error e => exact rfl

theorem same {τ : Equiv.Perm Ref} {x y : Except ε α} (h : Matches (Same τ) x y) : y = x := by
  rcases h.cases with ⟨a, b, rfl, rfl, hR⟩ | ⟨e, rfl, rfl⟩
  · exact congrArg Except.ok hR
  · rfl

theorem of_eq (τ : Equiv.Perm Ref) (x : Except ε α) : Matches (Same τ) x x := by
  cases x with
  | ok a => exact rfl
  | error e => exact rfl

/-- A result that is kept corresponds as before. -/
theorem kept {τ υ : Equiv.Perm Ref} {x y : Except RunError Ref} (h : Matches (Renamed τ) x y)
    (keeps : Keeps (outcome 0 ({·}) x) τ υ) : Matches (Renamed υ) x y := by
  rcases h.cases with ⟨a, b, rfl, rfl, hR⟩ | ⟨e, rfl, rfl⟩
  · exact hR.trans (keeps a (Multiset.mem_singleton_self a)).symm
  · exact rfl

end Matches

namespace Follows

variable {σ : Equiv.Perm Ref} {held rest : Multiset Ref}

theorem mono {ends ends' : Equiv.Perm Ref → Multiset Ref → α → β → Prop} {code : Procedure κ α}
    {code' : Procedure κ β} (hc : Follows ends σ held code code')
    (weaker : ∀ τ left a b, ends τ left a b → ends' τ left a b) : Follows ends' σ held code code' := by
  induction code generalizing σ held code' with
  | done a =>
    obtain ⟨b, he, hb⟩ := hc
    exact ⟨b, he, weaker _ _ _ _ hb⟩
  | call r next ih =>
    obtain ⟨rest, next', he, hb, hr, hx⟩ := hc
    exact ⟨rest, next', he, hb, hr, fun x τ hτ => ih x (hx x τ hτ)⟩

/-- One part after the other. -/
theorem bind {mid : Equiv.Perm Ref → Multiset Ref → α → β → Prop} {ends : Equiv.Perm Ref → Multiset Ref → γ → δ → Prop}
    {code : Procedure κ α} {code' : Procedure κ β} {f : α → Procedure κ γ} {f' : β → Procedure κ δ}
    (hc : Follows mid σ held code code') (hf : ∀ τ left a b, mid τ left a b → Follows ends τ left (f a) (f' b)) :
    Follows ends σ held (code >>= f) (code' >>= f') := by
  induction code generalizing σ held code' with
  | done a =>
    obtain ⟨b, rfl, hb⟩ := hc
    exact hf _ _ _ _ hb
  | call r next ih =>
    obtain ⟨rest, next', he, hb, rfl, hx⟩ := hc
    exact ⟨rest, fun x => next' x >>= f', he, hb, rfl, fun x τ hτ => ih x (hx x τ hτ)⟩

theorem ask (r : Request κ) (he : held = r.consumes + rest) (hb : ∀ a ∈ r.borrows, a ∈ rest) :
    Follows (fun τ left x y => Keeps rest σ τ ∧ left = r.makes x + rest ∧ y = r.answer σ τ x) σ held (.ask r)
      (.ask (r.map σ)) :=
  ⟨rest, _, he, hb, rfl, fun _ _ hτ => ⟨_, rfl, hτ, rfl, rfl⟩⟩

/-- Code that follows some code is followed by code that uses what it holds. -/
theorem uses {ends : Equiv.Perm Ref → Multiset Ref → α → β → Prop} {code : Procedure κ α} {code' : Procedure κ β}
    (hc : Follows ends σ held code code') : Uses (fun a left => ∃ τ b, ends τ left a b) held code := by
  induction code generalizing σ held code' with
  | done a =>
    obtain ⟨b, -, hb⟩ := hc
    exact ⟨σ, b, hb⟩
  | call r next ih =>
    obtain ⟨rest, next', he, hb, -, hx⟩ := hc
    exact ⟨rest, he, hb, fun x => ih x (hx x σ (.refl _ _))⟩

end Follows

namespace Pursues

variable {R : Equiv.Perm Ref → α → α → Prop} {R' : Equiv.Perm Ref → β → β → Prop} {σ : Equiv.Perm Ref}
  {kept kept' failed held rest : Multiset Ref} {mid made : α → Multiset Ref} {made' : β → Multiset Ref}

theorem settles {code code' : Routine κ α} (hc : Pursues R kept failed made σ held code code') :
    Settles (outcome failed made) held code.run :=
  hc.uses.mono fun _ _ ⟨_, _, _, he, _⟩ => he

/-- Parts that may fail, one after the other. A failure of either leaves the same. -/
theorem bind {code code' : Routine κ α} {f f' : α → Routine κ β} (hc : Pursues R kept failed mid σ held code code')
    (sub : failed ⊆ kept)
    (hf : ∀ τ a b, Keeps kept σ τ → R τ a b → Pursues R' failed failed made' τ (mid a) (f a) (f' b)) :
    Pursues R' failed failed made' σ held (code >>= f) (code' >>= f') := by
  refine Follows.bind hc fun τ left x y h => ?_
  obtain ⟨keeps, rfl, hm⟩ := h
  rcases hm.cases with ⟨a, b, rfl, rfl, hR⟩ | ⟨e, rfl, rfl⟩
  · refine (hf τ a b keeps hR).mono fun υ left z w h => ⟨?_, h.2⟩
    have last := h.1
    rw [outcome_const] at last ⊢
    exact (keeps.mono sub).trans last
  · exact ⟨_, rfl, keeps, rfl, rfl⟩

/-- A failure that goes on after some clean-up. -/
theorem rethrow {mid : Multiset Ref} {code code' : Routine κ α} {cleanup cleanup' : Routine κ Unit}
    (hc : Pursues R kept mid made σ held code code') (sub : failed ⊆ mid)
    (hf : ∀ τ, Keeps mid σ τ → Pursues Same failed failed (fun _ => failed) τ mid cleanup cleanup') :
    Pursues R kept failed made σ held (tryCatch code fun e => do cleanup; throw e)
      (tryCatch code' fun e => do cleanup'; throw e) := by
  refine Follows.bind hc fun τ left x y h => ?_
  obtain ⟨keeps, rfl, hm⟩ := h
  rcases hm.cases with ⟨a, b, rfl, rfl, hR⟩ | ⟨e, rfl, rfl⟩
  · exact ⟨_, rfl, keeps, rfl, hR⟩
  · refine Follows.bind (hf τ keeps) fun υ left z w h => ?_
    obtain ⟨last, rfl, hm'⟩ := h
    rw [outcome_const] at last ⊢
    have both := (Keeps.mono keeps sub).trans last
    rcases hm'.cases with ⟨_, _, rfl, rfl, -⟩ | ⟨e', rfl, rfl⟩
    · exact ⟨_, rfl, both, rfl, rfl⟩
    · exact ⟨_, rfl, both, rfl, rfl⟩

theorem pure {a b : α} (he : held = made a) (hR : R σ a b) :
    Pursues R kept failed made σ held (Pure.pure a : Routine κ α) (Pure.pure b) :=
  ⟨_, rfl, .refl _ _, he, hR⟩

theorem throw (e : RunError) :
    Pursues R kept failed made σ failed (MonadExcept.throw e : Routine κ α) (MonadExcept.throw e) :=
  ⟨_, rfl, .refl _ _, rfl, rfl⟩

/-- A request that cannot fail. -/
theorem sure {code code' : Procedure κ α}
    (hc : Follows (fun τ left a b => Keeps kept σ τ ∧ left = made a ∧ R τ a b) σ held code code') :
    Pursues R kept failed made σ held (Routine.sure code) (Routine.sure code') :=
  Follows.bind hc fun _ _ _ _ h => ⟨_, rfl, h⟩

/-- A request that may fail, and then brings nothing. -/
theorem tried {code code' : Procedure κ (Except RunError α)}
    (hc : Follows (fun τ left x y => Keeps rest σ τ ∧ left = outcome 0 made x + rest ∧ Matches (R τ) x y) σ held code
      code') :
    Pursues R rest rest (fun a => made a + rest) σ held (Routine.tried code) (Routine.tried code') := by
  refine Follows.mono hc fun τ left x y h => ⟨?_, h.2.1.trans ?_, h.2.2⟩
  · rw [outcome_const]
    exact h.1
  · cases x with
    | ok a => rfl
    | error e => exact zero_add rest

/-- A request that may fail or bring a reference. -/
theorem brought {code code' : Procedure κ (Except RunError Ref)}
    (hc : Follows (fun τ left x y => Keeps rest σ τ ∧ left = outcome 0 ({·}) x + rest ∧ y = x.map τ) σ held code
      code') :
    Pursues Renamed rest rest (fun a => {a} + rest) σ held (Routine.tried code) (Routine.tried code') := by
  refine tried (hc.mono fun τ left x y h => ⟨h.1, h.2.1, ?_⟩)
  rw [h.2.2]
  exact .of_map τ x

/-- Clean-up after code that may have failed. -/
theorem andFinally {last : Equiv.Perm Ref → Multiset Ref → Except RunError α → Except RunError α → Prop}
    {body body' : Routine κ α} {cleanup cleanup' : Routine κ Unit}
    (hb : Pursues R kept failed made σ held body body')
    (hc : ∀ τ x y, Keeps (outcome failed (fun _ => kept) x) σ τ → Matches (R τ) x y →
      Follows (fun υ left _ _ => last υ left x y) τ (outcome failed made x) cleanup.run cleanup'.run) :
    Follows last σ held (body.andFinally cleanup).run (body'.andFinally cleanup').run := by
  refine Follows.bind hb fun τ left x y h => ?_
  obtain ⟨keeps, rfl, hm⟩ := h
  exact Follows.bind (hc τ x y keeps hm) fun υ left _ _ h => ⟨_, rfl, h⟩

end Pursues

theorem Yields.pursues {σ : Equiv.Perm Ref} {rest held failed : Multiset Ref} {code code' : Routine κ Unit}
    (hc : Yields rest σ held code code') : Pursues Same rest failed (fun _ => rest) σ held code code' := by
  refine hc.mono fun τ left x y h => ?_
  obtain ⟨keeps, hl, rfl, rfl⟩ := h
  exact ⟨keeps, hl, rfl⟩

namespace Routine

variable {σ : Equiv.Perm Ref} {held left rest : Multiset Ref}

theorem short_pursues (v : Int32) :
    Pursues Renamed rest rest (fun a => {a} + rest) σ rest (short v : Routine κ Ref) (short v) :=
  .brought (.ask (.short v) (zero_add rest).symm (List.forall_mem_nil _))

theorem tuple_pursues (rest : Multiset Ref) (items : List Ref) (he : held = items + rest) :
    Pursues Renamed rest rest (fun a => {a} + rest) σ held (tuple items : Routine κ Ref) (tuple (items.map σ)) :=
  .brought (.ask (.tuple items) he (List.forall_mem_nil _))

theorem binary_pursues (rest : Multiset Ref) {op : BinaryOp} {a b : Ref} (he : held = [a, b] + rest) :
    Pursues Renamed rest rest (fun a => {a} + rest) σ held (binary op a b : Routine κ Ref) (binary op (σ a) (σ b)) :=
  .brought (.ask (.binary op a b) he (List.forall_mem_nil _))

theorem fib_pursues (rest : Multiset Ref) {a : Ref} (he : held = {a} + rest) :
    Pursues Renamed rest rest (fun a => {a} + rest) σ held (fib a : Routine κ Ref) (fib (σ a)) :=
  .brought (.ask (.fib a) he (List.forall_mem_nil _))

theorem compare_pursues (rest : Multiset Ref) {op : CompareOp} {a b : Ref} (he : held = [a, b] + rest) :
    Pursues Same rest rest (fun _ => rest) σ held (compare op a b : Routine κ Bool) (compare op (σ a) (σ b)) := by
  refine Follows.mono (Follows.ask (.compare op a b) he (List.forall_mem_nil _)) fun τ left x y h => ?_
  obtain ⟨keeps, rfl, rfl⟩ := h
  rw [outcome_const]
  exact ⟨keeps, zero_add rest, .of_eq τ y⟩

theorem none_pursues : Pursues Renamed rest left (fun a => {a} + rest) σ rest (none : Routine κ Ref) none :=
  .sure (.ask .none (zero_add rest).symm (List.forall_mem_nil _))

theorem acquire_pursues {a : Ref} (ha : a ∈ rest) :
    Pursues Renamed rest left (fun b => {b} + rest) σ rest (acquire a : Routine κ Ref) (acquire (σ a)) :=
  .sure (.ask (.acquire a) (zero_add rest).symm (List.forall_mem_singleton.mpr ha))

theorem object_pursues {a : Ref} (ha : a ∈ rest) :
    Pursues (fun τ o o' => o' = o.map τ) rest left (fun _ => rest) σ rest (object a : Routine κ Object)
      (object (σ a)) := by
  have hc := Follows.ask (.inspect (.object a) : Request κ) (σ := σ) (zero_add rest).symm
    (List.forall_mem_singleton.mpr ha)
  exact .sure (hc.mono fun τ left x y h => ⟨h.1, h.2.1.trans (zero_add rest), h.2.2⟩)

theorem typeName_pursues {a : Ref} (ha : a ∈ rest) :
    Pursues Same rest left (fun _ => rest) σ rest (typeName a : Routine κ String) (typeName (σ a)) := by
  have hc := Follows.ask (.inspect (.typeName a) : Request κ) (σ := σ) (zero_add rest).symm
    (List.forall_mem_singleton.mpr ha)
  exact .sure (hc.mono fun τ left x y h => ⟨h.1, h.2.1.trans (zero_add rest), h.2.2⟩)

theorem release_yields (rest : Multiset Ref) {a : Ref} (he : held = {a} + rest) :
    Yields rest σ held (release a : Routine κ Unit) (release (σ a)) := by
  have hc := Follows.ask (.release a : Request κ) (σ := σ) he (List.forall_mem_nil _)
  exact Follows.bind hc fun τ left x y h => ⟨_, rfl, h.1, h.2.1.trans (zero_add rest), rfl, rfl⟩

theorem leaveRecursion_yields : Yields rest σ rest (leaveRecursion : Routine κ Unit) leaveRecursion := by
  have hc := Follows.ask (.leaveRecursion : Request κ) (σ := σ) (zero_add rest).symm (List.forall_mem_nil _)
  exact Follows.bind hc fun τ left x y h => ⟨_, rfl, h.1, h.2.1.trans (zero_add rest), rfl, rfl⟩

/-- References are given back one by one. -/
theorem releaseAll_yields (rest : Multiset Ref) : ∀ (refs : List Ref) {held : Multiset Ref} {σ : Equiv.Perm Ref},
    held = refs + rest → Yields rest σ held (releaseAll refs : Routine κ Unit) (releaseAll (refs.map σ))
  | [], _, _, he => ⟨_, rfl, .refl _ _, he.trans (zero_add rest), rfl, rfl⟩
  | a :: refs, held, σ, he => by
    have first : held = {a} + (refs + rest) := by
      rw [he, ← Multiset.cons_coe, Multiset.cons_add, Multiset.singleton_add]
    refine Follows.bind (release_yields (refs + rest) first) fun τ left x y h => ?_
    obtain ⟨keeps, rfl, rfl, rfl⟩ := h
    have ih : Yields rest τ (refs + rest) (releaseAll refs : Routine κ Unit) _ := releaseAll_yields rest refs rfl
    rw [keeps.map_eq fun b hb => Multiset.mem_add.mpr (Or.inl hb)] at ih
    exact ih.mono fun υ left x y h => ⟨(keeps.mono fun b hb => Multiset.mem_add.mpr (Or.inr hb)).trans h.1, h.2⟩

/-- Operands that code only looks at, given back in the end. -/
theorem consuming_pursues (refs : List Ref) {body body' : Routine κ Ref}
    (hb : Pursues Renamed refs refs (fun a => {a} + (refs : Multiset Ref)) σ refs body body') :
    Pursues Renamed 0 0 ({·}) σ refs (consuming refs body) (consuming (refs.map σ) body') := by
  refine .andFinally hb fun τ x y keeps hm => ?_
  rw [outcome_const] at keeps
  rw [outcome_const, ← keeps.map_eq fun _ ha => ha]
  have hr : outcome (refs : Multiset Ref) (fun a => {a} + (refs : Multiset Ref)) x = refs + outcome 0 ({·}) x := by
    cases x with
    | ok a => exact add_comm _ _
    | error e => exact (add_zero _).symm
  -- the result is held while the operands go, so it stands for the same in the end
  exact (releaseAll_yields _ refs hr).mono fun υ left _ _ h => ⟨.zero _ _, h.2.1, hm.kept h.1⟩

/-- A level that is refused consumes the operands too. -/
theorem recursing_pursues (refs : List Ref) {body body' : Routine κ Ref}
    (hb : ∀ τ, Keeps refs σ τ → Pursues Renamed 0 0 ({·}) τ refs body body') :
    Pursues Renamed 0 0 ({·}) σ refs (recursing refs body) (recursing (refs.map σ) body') := by
  have he := Follows.ask (.enterRecursion : Request κ) (σ := σ) (zero_add (refs : Multiset Ref)).symm
    (List.forall_mem_nil _)
  refine Follows.bind he fun τ left x y h => ?_
  obtain ⟨keeps, hl, hy⟩ := h
  have hl : left = refs := hl.trans (zero_add _)
  have hy : y = x := hy
  subst hl hy
  cases y with
  | ok =>
    refine (hb τ keeps).andFinally fun υ x y _ hm => ?_
    rw [outcome_const]
    exact leaveRecursion_yields.mono fun ω left _ _ h => ⟨.zero _ _, h.2.1, hm.kept h.1⟩
  | error e =>
    rw [← keeps.map_eq fun _ ha => ha]
    exact Follows.bind (releaseAll_yields 0 refs (add_zero _).symm) fun υ left _ _ h => ⟨_, rfl, .zero _ _, h.2.1, rfl⟩

/-! ### Fibonacci -/

theorem minus_pursues {n : Ref} (hn : n ∈ rest) (k : Int32) :
    Pursues Renamed rest rest (fun a => {a} + rest) σ rest (minus n k : Routine κ Ref) (minus (σ n) k) := by
  refine .bind (short_pursues k) (Multiset.Subset.refl _) fun τ k k' keeps hk => ?_
  rw [← keeps n hn]
  refine .bind (acquire_pursues (Multiset.mem_add.mpr (Or.inr hn)))
    (fun _ ha => Multiset.mem_add.mpr (Or.inr ha)) fun υ m m' keeps hm => ?_
  have hk : k' = υ k := hk.trans (keeps k (Multiset.mem_add.mpr (Or.inl (Multiset.mem_singleton_self k)))).symm
  have hm : m' = υ m := hm
  subst hk hm
  refine binary_pursues rest ?_
  rw [coe_pair]
  abel

/-- The second call of a level and the sum. The first summand is given back before the
error of the call goes on. -/
theorem fibSum_pursues (n first : Ref) :
    Pursues Renamed {n} {n} (fun a => {a} + {n}) σ ({first} + {n})
      (do
        let second ← tryCatch (do fib (← minus n 2)) fun e => do
          release first
          throw e
        binary .add first second : Routine κ Ref)
      (do
        let second ← tryCatch (do fib (← minus (σ n) 2)) fun e => do
          release (σ first)
          throw e
        binary .add (σ first) second) := by
  have hn : n ∈ ({first} + {n} : Multiset Ref) := Multiset.mem_add.mpr (Or.inr (Multiset.mem_singleton_self n))
  have hf : first ∈ ({first} + {n} : Multiset Ref) := Multiset.mem_add.mpr (Or.inl (Multiset.mem_singleton_self first))
  have kept : ({n} : Multiset Ref) ⊆ {first} + {n} := Multiset.subset_of_le (Multiset.le_add_left _ _)
  have second : Pursues Renamed ({first} + {n}) ({first} + {n}) (fun a => {a} + ({first} + {n})) σ ({first} + {n})
      (do fib (← minus n 2) : Routine κ Ref) (do fib (← minus (σ n) 2)) := by
    refine .bind (minus_pursues hn 2) (Multiset.Subset.refl _) fun τ m m' _ hm => ?_
    rw [show m' = τ m from hm]
    exact fib_pursues _ rfl
  refine .bind (second.rethrow kept fun τ keeps => ?_) kept fun τ m m' keeps hm => ?_
  · rw [← keeps first hf]
    exact (release_yields {n} rfl).pursues
  · rw [← keeps first hf, show m' = τ m from hm]
    refine binary_pursues {n} ?_
    rw [coe_pair]
    abel

/-- A level keeps its operand, also when a call inside it fails. -/
theorem fibLevel_pursues (n : Ref) :
    Pursues Renamed {n} {n} (fun a => {a} + {n}) σ {n} (fibLevel n : Routine κ Ref) (fibLevel (σ n)) := by
  have hn : n ∈ ({n} : Multiset Ref) := Multiset.mem_singleton_self n
  have kept : ∀ {m a}, a ∈ ({n} : Multiset Ref) → a ∈ ({m} + {n} : Multiset Ref) := fun ha =>
    Multiset.mem_add.mpr (Or.inr ha)
  refine .bind (short_pursues 1) (Multiset.Subset.refl _) fun τ one one' keeps h1 => ?_
  rw [← keeps n hn]
  refine .bind (acquire_pursues (kept hn)) (fun _ => kept) fun υ copy copy' keeps hc => ?_
  rw [← keeps n (kept hn), show copy' = υ copy from hc,
    h1.trans (keeps one (Multiset.mem_add.mpr (Or.inl (Multiset.mem_singleton_self one)))).symm]
  refine .bind (compare_pursues {n} ?_) (Multiset.Subset.refl _) fun φ small small' keeps hs => ?_
  · rw [coe_pair]
    abel
  rw [← keeps n hn, show small' = small from hs]
  cases small with
  | true => exact short_pursues 1
  | false =>
    refine .bind (minus_pursues hn 1) (Multiset.Subset.refl _) fun χ m m' keeps hm => ?_
    rw [← keeps n hn, show m' = χ m from hm]
    refine .bind (fib_pursues {n} rfl) (Multiset.Subset.refl _) fun ψ first first' keeps hf => ?_
    rw [← keeps n hn, show first' = ψ first from hf]
    exact fibSum_pursues n first

/-- **Fibonacci does not see where its objects are.** -/
theorem fibonacci_pursues (σ : Equiv.Perm Ref) (n : Ref) :
    Pursues Renamed 0 0 ({·}) σ {n} (fibonacci n : Routine κ Ref) (fibonacci (σ n)) := by
  refine recursing_pursues [n] fun τ keeps => ?_
  rw [← keeps n (Multiset.mem_singleton_self n)]
  exact consuming_pursues [n] (fibLevel_pursues n)

/-- **Fibonacci consumes its operand once, on every path.** -/
theorem fibonacci_settles (n : Ref) : Settles (outcome 0 ({·})) {n} (fibonacci n : Routine κ Ref).run :=
  (fibonacci_pursues (.refl Ref) n).settles

end Routine

/-! ### Code that only looks -/

namespace Echoes

variable {f : Ref → Ref}

/-- One part after the other. -/
theorem bind {code code' : Inspection α} {g g' : α → Inspection β} (hc : Echoes f code code')
    (hg : ∀ a, Echoes f (g a) (g' a)) : Echoes f (code >>= g) (code' >>= g') := by
  induction code generalizing code' with
  | done a =>
    subst hc
    exact hg a
  | call q next ih =>
    obtain ⟨next', rfl, hx⟩ := hc
    exact ⟨fun x => next' x >>= g', rfl, fun x => ih x (hx x)⟩

/-- Parts that may fail, one after the other. -/
theorem runBind {code code' : Judgement α} {g g' : α → Judgement β} (hc : Echoes f code.run code'.run)
    (hg : ∀ a, Echoes f (g a).run (g' a).run) : Echoes f (code >>= g).run (code' >>= g').run := by
  refine bind hc fun x => ?_
  cases x with
  | ok a => exact hg a
  | error e => exact rfl

theorem sure {code code' : Inspection α} (hc : Echoes f code code') :
    Echoes f (Judgement.sure code).run (Judgement.sure code').run :=
  bind hc fun _ => rfl

end Echoes

/-! ### The stock handlers -/

namespace Stock

open Routine

variable {σ : Equiv.Perm Ref} {rest : Multiset Ref}

theorem payload_pursues {a : Ref} (ha : a ∈ rest) :
    Pursues Same rest rest (fun _ => rest) σ rest (payload a : Routine κ Int64) (payload (σ a)) := by
  refine .bind (object_pursues ha) (Multiset.Subset.refl _) fun τ o o' keeps ho => ?_
  rw [← keeps a ha, show o' = o.map τ from ho]
  obtain ⟨_, _, _, _, _, payload⟩ := o
  cases payload with
  | host n => exact .pure rfl rfl
  | none | bool | short | tuple =>
    refine .bind (typeName_pursues ha) (Multiset.Subset.refl _) fun υ name name' _ hn => ?_
    rw [show name' = name from hn]
    exact .throw _

theorem unary_pursues (f : Unary) (σ : Equiv.Perm Ref) (a : Ref) :
    Pursues Renamed 0 0 ({·}) σ {a} (unary f a : Routine κ Ref) (unary f (σ a)) := by
  have ha : a ∈ ({a} : Multiset Ref) := Multiset.mem_singleton_self a
  cases f with
  | identity => exact .pure rfl rfl
  | box => exact tuple_pursues 0 [a] rfl
  | dup =>
    refine .bind (acquire_pursues ha) (Multiset.zero_subset _) fun τ b b' keeps hb => ?_
    rw [← keeps a ha, show b' = τ b from hb]
    refine tuple_pursues 0 [a, b] ?_
    rw [coe_pair]
    abel
  | none => exact .bind (release_yields 0 rfl).pursues (Multiset.zero_subset _) fun _ _ _ _ _ => none_pursues
  | fail => exact .bind (release_yields 0 rfl).pursues (Multiset.zero_subset _) fun _ _ _ _ _ => .throw _

theorem binary_pursues (f : Binary) (σ : Equiv.Perm Ref) (a b : Ref) :
    Pursues Renamed 0 0 ({·}) σ [a, b] (binary f a b : Routine κ Ref) (binary f (σ a) (σ b)) := by
  have ha : a ∈ [a, b] := List.mem_cons_self
  have hb : b ∈ [a, b] := List.mem_cons_of_mem a List.mem_cons_self
  cases f with
  | pair => exact tuple_pursues 0 [a, b] rfl
  | keepLeft =>
    refine .bind (release_yields {a} (add_comm {a} {b})).pursues (Multiset.zero_subset _) fun τ _ _ keeps _ => ?_
    exact .pure rfl (keeps a (Multiset.mem_singleton_self a)).symm
  | keepRight =>
    refine .bind (release_yields {b} rfl).pursues (Multiset.zero_subset _) fun τ _ _ keeps _ => ?_
    exact .pure rfl (keeps b (Multiset.mem_singleton_self b)).symm
  | fail => exact .bind (releaseAll_yields 0 [a, b] rfl).pursues (Multiset.zero_subset _) fun _ _ _ _ _ => .throw _
  | sum =>
    refine consuming_pursues [a, b] (.bind (payload_pursues ha) (Multiset.Subset.refl _) fun τ x x' keeps hx => ?_)
    rw [← keeps b hb, show x' = x from hx]
    refine .bind (payload_pursues hb) (Multiset.Subset.refl _) fun υ y y' _ hy => ?_
    rw [show y' = y from hy]
    cases Word.ofInt? (x + y).toInt with
    | some n => exact short_pursues n
    | none => exact .throw _
  | swapSubtract => exact Routine.binary_pursues 0 (add_comm {a} {b})
  | recurseAdd =>
    refine recursing_pursues [a, b] fun τ keeps => ?_
    rw [← keeps a ha, ← keeps b hb]
    exact Routine.binary_pursues 0 (add_comm {a} {b})

theorem ternary_pursues (f : Ternary) (σ : Equiv.Perm Ref) (a b c : Ref) :
    Pursues Renamed 0 0 ({·}) σ [a, b, c] (ternary f a b c : Routine κ Ref) (ternary f (σ a) (σ b) (σ c)) := by
  cases f with
  | triple => exact tuple_pursues 0 [a, b, c] rfl
  | keepFirst =>
    have he : (([a, b, c] : List Ref) : Multiset Ref) = ([b, c] : List Ref) + {a} :=
      add_comm ({a} : Multiset Ref) [b, c]
    refine .bind (releaseAll_yields {a} [b, c] he).pursues (Multiset.zero_subset _) fun τ _ _ keeps _ => ?_
    exact .pure rfl (keeps a (Multiset.mem_singleton_self a)).symm
  | keepThird =>
    refine .bind (releaseAll_yields {c} [a, b] rfl).pursues (Multiset.zero_subset _) fun τ _ _ keeps _ => ?_
    exact .pure rfl (keeps c (Multiset.mem_singleton_self c)).symm
  | fail => exact .bind (releaseAll_yields 0 [a, b, c] rfl).pursues (Multiset.zero_subset _) fun _ _ _ _ _ => .throw _

theorem payload?_echoes (f : Ref → Ref) (a : Ref) : Echoes f (payload? a) (payload? (f a)) := by
  refine ⟨_, rfl, fun o => ?_⟩
  obtain ⟨_, _, _, _, _, payload⟩ := o
  cases payload with
  | none | bool | short | tuple | host => exact rfl

theorem judgePayload_echoes (f : Ref → Ref) (a : Ref) : Echoes f (judgePayload a).run (judgePayload (f a)).run := by
  refine .runBind (.sure (payload?_echoes f a)) fun n => ?_
  cases n with
  | some n => exact rfl
  | none => exact ⟨_, rfl, fun _ => rfl⟩

theorem truth_echoes (t : Truth) (f : Ref → Ref) (a : Ref) : Echoes f (truth t a) (truth t (f a)) := by
  cases t with
  | always | never => exact rfl
  | payloadNonzero => exact .bind (payload?_echoes f a) fun _ => rfl

theorem length_echoes (l : Length) (f : Ref → Ref) (a : Ref) : Echoes f (length l a) (length l (f a)) := by
  cases l with
  | zero | three => exact rfl
  | payload => exact .bind (payload?_echoes f a) fun _ => rfl

theorem comparison_echoes (c : Comparison) (f : Ref → Ref) (a b : Ref) :
    Echoes f (comparison c a b).run (comparison c (f a) (f b)).run := by
  cases c with
  | always | never | fail => exact rfl
  | payloadEqual | payloadLessOrEqual =>
    exact .runBind (judgePayload_echoes f a) fun _ => .runBind (judgePayload_echoes f b) fun _ => rfl
  | sameTruth => exact ⟨_, rfl, fun _ => ⟨_, rfl, fun _ => rfl⟩⟩
  | asEqual => exact ⟨_, rfl, fun _ => rfl⟩

/-- **The stock host is uniform.** -/
theorem host_uniform (frames : Nat) : (host frames).Uniform where
  unary f σ a := (unary_pursues f σ a).mono fun _ _ _ _ h => ⟨h.2.1.ge, h.2.2⟩
  binary f σ a b := (binary_pursues f σ a b).mono fun _ _ _ _ h => ⟨h.2.1.ge, h.2.2⟩
  ternary f σ a b c := (ternary_pursues f σ a b c).mono fun _ _ _ _ h => ⟨h.2.1.ge, h.2.2⟩
  truth t σ a := truth_echoes t σ a
  length l σ a := length_echoes l σ a
  comparison c σ a b := comparison_echoes c σ a b

theorem host_settled (frames : Nat) : (host frames).Settled where
  unary f a := (unary_pursues f (.refl Ref) a).settles
  binary f a b := (binary_pursues f (.refl Ref) a b).settles
  ternary f a b c := (ternary_pursues f (.refl Ref) a b c).settles

/-- **The stock host is disciplined.** -/
theorem host_disciplined (frames : Nat) : (host frames).Disciplined where
  unary f a := ((host_settled frames).unary f a).mono fun _ _ he => he.ge
  binary f a b := ((host_settled frames).binary f a b).mono fun _ _ he => he.ge
  ternary f a b c := ((host_settled frames).ternary f a b c).mono fun _ _ he => he.ge
  truth := truth_looks
  length := length_looks
  comparison := comparison_looks

end Stock

end CountedHeap
