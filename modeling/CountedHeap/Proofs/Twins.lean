/-
# Heaps that are asked the same

`Twin σ held h h'` says that two heaps have the same objects in the slots that `σ`
says, that the books of the first are balanced with `held` among what is held, and
that the second is well-formed. Sharing an object and giving references back keep
`σ`. A new object takes a dead slot of either heap, which need not correspond; the
two slots are swapped before it is put there, which changes `σ` for dead slots only,
and nothing that is held or owned is dead (`Twin.swap`).

`Tandem` says that a computation on each of two twins does the same: both stop at
the same fault, or both end, with results that are related and with heaps that are
twins again. What is held beside the computation corresponds as before. It is shown
for what a heap does itself, the built-in handlers included.

Key definitions: `Twin`, `Tandem`.
Key theorems: `Twin.cascade`, `Twin.swap`, `Twin.construct`.
-/
import CountedHeap.Proofs.Trades
import CountedHeap.Proofs.Uniform

namespace CountedHeap

variable {κ : Role → Type} {α β γ δ : Type}

/-- Two heaps with the same objects. The user of the first holds `held`, and others may
hold something beside it. -/
structure Twin (σ : Equiv.Perm Ref) (held : Multiset Ref) (h h' : Heap κ) : Prop where
  mirror : Mirror σ h h'
  balanced : ∃ lost, h.Balanced (held + lost)
  wellFormed : h'.WellFormed

/-- Both stop at the same fault, or both end: with results that are related, and with
twins whose user holds `made a` and, as before, `rest`. -/
def Tandem (R : Equiv.Perm Ref → α → β → Prop) (made : α → Multiset Ref) (rest : Multiset Ref) (σ : Equiv.Perm Ref)
    (x : Except Fault (α × Heap κ)) (y : Except Fault (β × Heap κ)) : Prop :=
  Matches (fun p q => ∃ τ, Keeps rest σ τ ∧ R τ p.1 q.1 ∧ Twin τ (made p.1 + rest) p.2 q.2) x y

/-- The same of operations that may fail. After a failure nothing is held beside `rest`. -/
abbrev RunTandem (R : Equiv.Perm Ref → α → β → Prop) (made : α → Multiset Ref) (rest : Multiset Ref)
    (σ : Equiv.Perm Ref) (x : Except Fault (Except RunError α × Heap κ))
    (y : Except Fault (Except RunError β × Heap κ)) : Prop :=
  Tandem (fun τ => Matches (R τ)) (outcome 0 made) rest σ x y

/-! ### Steps of two heaps -/

/-- What does not change when a slot is written. -/
structure Heap.Framed (h g : Heap κ) : Prop where
  types : g.types = h.types
  interned : g.interned = h.interned
  depth : g.depth = h.depth
  roomy : h.ledger.tracker.Roomy → g.ledger.tracker.Roomy
  maxDepth : g.ledger.tracker.maxDepth = h.ledger.tracker.maxDepth

namespace Tracker

theorem roomy_free {t : Tracker} (roomy : t.Roomy) (size : Nat) : (t.free size).Roomy := by
  cases t with
  | unmetered => trivial
  | metered => exact roomy

theorem maxDepth_free (t : Tracker) (size : Nat) : (t.free size).maxDepth = t.maxDepth := by
  cases t <;> rfl

/-- Without limits a block is never refused. -/
theorem Roomy.allocate {t : Tracker} (roomy : t.Roomy) (size : Nat) :
    ∃ t', t.allocate size = .ok t' ∧ t'.Roomy ∧ t'.maxDepth = t.maxDepth := by
  cases t with
  | unmetered => exact ⟨_, rfl, trivial, rfl⟩
  | metered limits allocations memory =>
    obtain ⟨ha, hm⟩ := roomy
    refine ⟨.metered limits (allocations + 1) (Word.wrapAdd memory size), ?_, ⟨ha, hm⟩, rfl⟩
    have hr : refusal? limits allocations memory size = none := by
      unfold refusal?
      rw [ha, hm]
      rfl
    rw [Tracker.allocate, hr]

end Tracker

namespace Heap

variable {h g : Heap κ} {r : Ref} {o : Object}

theorem Framed.refl (h : Heap κ) : h.Framed h := ⟨rfl, rfl, rfl, fun roomy => roomy, rfl⟩

theorem Framed.setSlot (f : h.Framed g) (r : Ref) (slot : Slot) : h.Framed (g.setSlot r slot) :=
  ⟨f.types, f.interned, f.depth, f.roomy, f.maxDepth⟩

theorem framed_bury (h : Heap κ) (r : Ref) (o : Object) : h.Framed (h.bury r o) := by
  rcases bury_cases h r o with ⟨c, -, -, he⟩ | he <;> rw [he]
  · exact ⟨rfl, rfl, rfl, fun roomy => roomy, rfl⟩
  · exact ⟨rfl, rfl, rfl, fun roomy => Tracker.roomy_free roomy _, Tracker.maxDepth_free _ _⟩

theorem release_of_fits (fits : (h.tryRelease r).2 = Option.none) : h.release r = (h.tryRelease r).1 := by
  unfold release
  split
  · rename_i g hg
    rw [hg]
  · rename_i g cause hg
    rw [hg] at fits
    cases fits

theorem construct_of_taken {type : TypeId} {d : Descriptor κ} {payload : Payload} (known : h.types.get? type = some d)
    (taken : h.takeBlock d.name (d.blockSize payload.children.length) = .ok (.ok r, g)) :
    construct type payload h = .ok (.ok r, g.setSlot r (.live (.fresh type d payload))) := by
  have hget : h.types.get type = .ok d := by
    unfold Registry.get
    rw [known]
  unfold construct
  rw [hget]
  simp only [bind, Except.bind, taken]
  rfl

/-- Without limits there is a block for every object. -/
theorem WellFormed.takeBlock_roomy (wf : h.WellFormed) (roomy : h.ledger.tracker.Roomy) (name : String) (size : Nat) :
    ∃ r g, h.takeBlock name size = .ok (.ok r, g) ∧ h.Framed g := by
  obtain ⟨found, hp⟩ := wf.takeParked_ok size
  unfold takeBlock
  rw [hp]
  cases found with
  | some p => exact ⟨p.1, _, rfl, rfl, rfl, rfl, fun roomy => roomy, rfl⟩
  | none =>
    obtain ⟨t, ht, roomy', hd⟩ := roomy.allocate size
    have hl : h.ledger.allocate size = .ok ⟨t, h.ledger.counts.allocate size⟩ := by
      unfold Ledger.allocate
      rw [ht]
    simp only [bind, Except.bind, hl]
    exact ⟨_, _, rfl, rfl, rfl, rfl, fun _ => roomy', hd⟩

end Heap

namespace Mirror

variable {σ τ : Equiv.Perm Ref} {h h' g g' : Heap κ} {r : Ref} {o : Object}

/-- Slots are written in both heaps. -/
theorem move (m : Mirror σ h h') (f : h.Framed g) (f' : h'.Framed g')
    (objects : ∀ a, g'.object? (σ a) = (g.object? a).map (Object.map σ)) : Mirror σ g g' where
  objects := objects
  types := f'.types.trans (m.types.trans f.types.symm)
  interned := f'.interned.trans (m.interned.trans f.interned.symm)
  fixed := f.interned ▸ m.fixed
  depth := f'.depth.trans (m.depth.trans f.depth.symm)
  roomy := ⟨f.roomy m.roomy.1, f'.roomy m.roomy.2⟩
  maxDepth := f'.maxDepth.trans (m.maxDepth.trans f.maxDepth.symm)

/-- Corresponding slots are written. -/
theorem write {new new' : Slot} (m : Mirror σ h h') (f : h.Framed g) (f' : h'.Framed g')
    (w : h.store.Writes g.store r new) (w' : h'.store.Writes g'.store (σ r) new')
    (he : new'.object? = new.object?.map (Object.map σ)) : Mirror σ g g' := by
  refine m.move f f' fun a => ?_
  by_cases ha : a = r
  · subst ha
    exact w'.object?_self.trans (he.trans (congrArg _ w.object?_self.symm))
  · have hσ : σ a ≠ σ r := fun h => ha (σ.injective h)
    exact (w'.object?_other hσ).trans ((m.objects a).trans (congrArg _ (w.object?_other ha).symm))

theorem live (m : Mirror σ h h') (live : h.object? r = some o) : h'.object? (σ r) = some (o.map σ) := by
  rw [m.objects, live]
  rfl

/-- A release finds the same. -/
theorem verdict_kept (m : Mirror σ h h') (kept : h.verdict r = .kept o) : h'.verdict (σ r) = .kept (o.map σ) := by
  obtain ⟨live, hlt⟩ := Heap.verdict_kept kept
  unfold Heap.verdict
  rw [Heap.slot_of_object? (m.live live)]
  have hi : ¬ ((o.map σ).immortal = true ∧ (o.map σ).refcount = 1) := fun h => by
    have : o.refcount = 1 := h.2
    omega
  have hlt : 1 < (o.map σ).refcount := hlt
  simp only
  rw [if_neg hi, if_pos hlt]

theorem verdict_dies (m : Mirror σ h h') (dies : h.verdict r = .dies o) : h'.verdict (σ r) = .dies (o.map σ) := by
  obtain ⟨live, hle, hi⟩ := Heap.verdict_dies dies
  unfold Heap.verdict
  rw [Heap.slot_of_object? (m.live live)]
  have hi : ¬ ((o.map σ).immortal = true ∧ (o.map σ).refcount = 1) := hi
  have hle : ¬ 1 < (o.map σ).refcount := Nat.not_lt.mpr hle
  simp only
  rw [if_neg hi, if_neg hle]

end Mirror

namespace Twin

variable {σ τ : Equiv.Perm Ref} {held rest : Multiset Ref} {h h' g g' : Heap κ} {r : Ref} {o : Object}

theorem live (t : Twin σ held h h') {a : Ref} (ha : a ∈ held) : ∃ o, h.object? a = some o := by
  obtain ⟨lost, b⟩ := t.balanced
  exact b.held_live (Multiset.mem_add.mpr (Or.inl ha))

/-- What is no longer used is held by others. -/
theorem mono (t : Twin σ held h h') {held' : Multiset Ref} (le : held' ≤ held) : Twin σ held' h h' := by
  obtain ⟨lost, b⟩ := t.balanced
  obtain ⟨more, rfl⟩ := Multiset.le_iff_exists_add.mp le
  rw [add_assoc] at b
  exact ⟨t.mirror, ⟨_, b⟩, t.wellFormed⟩

theorem zero_add (t : Twin σ held h h') : Twin σ (0 + held) h h' := by rwa [Multiset.zero_add]

/-- A step of either heap. -/
theorem change {a a' : Act} {given made : Multiset Ref} (t : Twin σ (given + rest) h h') (c : Change h a g)
    (c' : Change h' a' g') (spends : a.spends = given) (gains : a.gains = made) (mirror : Mirror σ g g') :
    Twin σ (made + rest) g g' := by
  obtain ⟨lost, b⟩ := t.balanced
  rw [← spends, add_assoc] at b
  have b' := c.balanced b
  rw [gains, ← add_assoc] at b'
  exact ⟨mirror, ⟨lost, b'⟩, c'.wellFormed t.wellFormed⟩

/-- A step that deals in no references. -/
theorem quiet {a a' : Act} (t : Twin σ held h h') (c : Change h a g) (c' : Change h' a' g')
    (spends : a.spends = 0) (gains : a.gains = 0) (mirror : Mirror σ g g') : Twin σ held g g' := by
  have t' := change t.zero_add c c' spends gains mirror
  rwa [Multiset.zero_add] at t'

/-- What is reported does not matter. -/
theorem emit (t : Twin σ held h h') (e e' : Event) : Twin σ held (h.emit e) (h'.emit e') where
  mirror := { t.mirror with }
  balanced := t.balanced.imp fun _ b => b.emit e
  wellFormed := t.wellFormed.of_eq rfl rfl rfl

theorem setDepth (t : Twin σ held h h') (f : Nat → Nat) :
    Twin σ held { h with depth := f h.depth } { h' with depth := f h'.depth } :=
  t.quiet (.setDepth _) (.setDepth _) rfl rfl { t.mirror with depth := congrArg f t.mirror.depth }

/-- A new reference to an object of either heap. -/
theorem acquire (t : Twin σ rest h h') (live : h.object? r = some o) :
    Twin σ ({r} + rest) (h.setSlot r (.live { o with refcount := o.refcount + 1 }))
      (h'.setSlot (σ r) (.live { o.map σ with refcount := o.refcount + 1 })) := by
  have live' := t.mirror.live live
  refine change t.zero_add (.acquire live) (.acquire live') rfl rfl ?_
  exact t.mirror.write ((Heap.Framed.refl _).setSlot _ _) ((Heap.Framed.refl _).setSlot _ _)
    (Store.writes_put (Heap.slot_of_object? live) _) (Store.writes_put (Heap.slot_of_object? live') _) rfl

/-- One of several references is given back. -/
theorem drop (t : Twin σ ({r} + rest) h h') (kept : h.verdict r = .kept o) :
    Twin σ rest (h.decrement r o) (h'.decrement (σ r) (o.map σ)) := by
  have kept' := t.mirror.verdict_kept kept
  have t' : Twin σ (0 + rest) _ _ := change t (.drop kept) (.drop kept') rfl rfl <|
    t.mirror.write ((Heap.Framed.refl _).setSlot _ _) ((Heap.Framed.refl _).setSlot _ _)
      (Store.writes_put (Heap.slot_of_verdict (congrArg Verdict.object? kept)) _)
      (Store.writes_put (Heap.slot_of_verdict (congrArg Verdict.object? kept')) _) rfl
  rwa [Multiset.zero_add] at t'

/-- The last reference is given back. -/
theorem bury (t : Twin σ ({r} + rest) h h') (dies : h.verdict r = .dies o) :
    Twin σ (o.payload.children + rest) (h.bury r o) (h'.bury (σ r) (o.map σ)) := by
  have dies' := t.mirror.verdict_dies dies
  obtain ⟨lost, b⟩ := t.balanced
  obtain ⟨⟨free, hf, w⟩, -⟩ := Change.bury_writes b.wellFormed (Heap.verdict_dies dies).1
  obtain ⟨⟨free', hf', w'⟩, -⟩ := Change.bury_writes t.wellFormed (Heap.verdict_dies dies').1
  refine change t (.bury dies) (.bury dies') rfl rfl ?_
  refine t.mirror.write (Heap.framed_bury _ _ _) (Heap.framed_bury _ _ _) w w' ?_
  rw [hf, hf']
  rfl

/-- **Giving back keeps twins**, and meets nothing that does not fit in either. -/
theorem cascade (first : Option Inconsistency) (pending : List Ref) (t : Twin σ (pending + rest) h h') :
    Twin σ rest (h.cascade first pending).1 (h'.cascade first (pending.map σ)).1 ∧
      (h.cascade first pending).2 = first ∧ (h'.cascade first (pending.map σ)).2 = first := by
  fun_induction Heap.cascade h first pending generalizing h' with
  | case1 h first =>
    rw [List.map_nil, Heap.cascade]
    rw [Multiset.coe_nil, Multiset.zero_add] at t
    exact ⟨t, rfl, rfl⟩
  | case2 h first r pending cause hv ih =>
    obtain ⟨lost, b⟩ := t.balanced
    exact absurd hv (b.verdict_fits (by simp) cause)
  | case3 h first r pending o hv ih =>
    rw [← Multiset.cons_coe, ← Multiset.singleton_add, add_assoc] at t
    rw [List.map_cons, Heap.cascade_kept (t.mirror.verdict_kept hv)]
    exact ih (t.drop hv)
  | case4 h first r pending o hv ih =>
    rw [← Multiset.cons_coe, ← Multiset.singleton_add, add_assoc] at t
    have hp : ((o.payload.children.reverse ++ pending : List Ref) : Multiset Ref) =
        o.payload.children + (pending : Multiset Ref) := by
      rw [← Multiset.coe_add, Multiset.coe_reverse]
    have t' := t.bury hv
    rw [← add_assoc, ← hp] at t'
    have he : (o.map σ).payload.children.reverse ++ pending.map σ =
        (o.payload.children.reverse ++ pending).map σ := by
      rw [List.map_append, List.map_reverse]
      exact congrArg (·.reverse ++ _) (o.payload.children_map σ)
    rw [List.map_cons, Heap.cascade_dies (t.mirror.verdict_dies hv), he]
    exact ih t'

theorem release (t : Twin σ ({r} + rest) h h') : Twin σ rest (h.release r) (h'.release (σ r)) := by
  obtain ⟨t', fits, fits'⟩ := cascade .none [r] t
  rw [Heap.release_of_fits fits, Heap.release_of_fits fits']
  exact t'

theorem releaseAll : ∀ {refs : List Ref} {h h' : Heap κ}, Twin σ (refs + rest) h h' →
    Twin σ rest (h.releaseAll refs) (h'.releaseAll (refs.map σ))
  | [], _, _, t => by
    rw [Multiset.coe_nil, Multiset.zero_add] at t
    exact t
  | r :: refs, h, h', t => by
    rw [← Multiset.cons_coe, ← Multiset.singleton_add, add_assoc] at t
    have ih : Twin σ rest ((h.release r).releaseAll refs) ((h'.release (σ r)).releaseAll (refs.map σ)) :=
      releaseAll t.release
    exact ih

/-! ### New objects -/

/-- **Dead slots may be swapped.** Nothing that is live is renamed by it. -/
theorem swap {r' : Ref} (t : Twin σ held h h') (dead : h.object? r = none) (dead' : h'.object? r' = none) :
    ∃ τ : Equiv.Perm Ref, τ r = r' ∧ (∀ a o, h.object? a = some o → τ a = σ a) ∧ Twin τ held h h' := by
  obtain ⟨lost, b⟩ := t.balanced
  have m := t.mirror
  have same : ∀ a o, h.object? a = some o → Equiv.swap (σ r) r' (σ a) = σ a := by
    intro a o live
    apply Equiv.swap_apply_of_ne_of_ne
    · intro he
      rw [σ.injective he, dead] at live
      cases live
    · intro he
      rw [← he, m.live live] at dead'
      cases dead'
  refine ⟨σ.trans (Equiv.swap (σ r) r'), Equiv.swap_apply_left _ _, same, ?_, ⟨lost, b⟩, t.wellFormed⟩
  refine ⟨fun a => ?_, m.types, m.interned, fun a ha => ?_, m.depth, m.roomy, m.maxDepth⟩
  · show h'.object? (Equiv.swap (σ r) r' (σ a)) = _
    cases ha : h.object? a with
    | some o =>
      rw [same a o ha, m.live ha]
      refine congrArg some (Object.map_congr fun c hc => ?_)
      obtain ⟨o', hc⟩ := b.item_live ha hc
      exact (same c o' hc).symm
    | none =>
      -- of the two slots that are swapped, both are dead
      have hσ : h'.object? (σ a) = none := by rw [m.objects, ha]; rfl
      have hr : h'.object? (σ r) = none := by rw [m.objects, dead]; rfl
      rw [Equiv.swap_apply_def]
      split
      · exact dead'
      · split
        · exact hr
        · exact hσ
  · obtain ⟨o, live, -⟩ := b.interned_live ha
    exact (same a o live).trans (m.fixed a ha)

/-- **A new object of either heap.** It takes over what it owns, and what is held
beside it corresponds as before. -/
theorem construct {type : TypeId} {payload : Payload} {d : Descriptor κ} (t : Twin σ (payload.children + rest) h h')
    (known : h.types.get? type = some d) (fits : payload.Fits type) :
    ∃ r g g' τ, Heap.construct type payload h = .ok (.ok r, g) ∧
      Heap.construct type (payload.map σ) h' = .ok (.ok (τ r), g') ∧ Keeps rest σ τ ∧ Twin τ ({r} + rest) g g' := by
  obtain ⟨lost, b⟩ := t.balanced
  have known' : h'.types.get? type = some d := by rwa [t.mirror.types]
  have length : (payload.map σ).children.length = payload.children.length := by
    rw [payload.children_map, List.length_map]
  obtain ⟨r, g, taken, f⟩ := b.wellFormed.takeBlock_roomy t.mirror.roomy.1 d.name
    (d.blockSize payload.children.length)
  obtain ⟨r', g', taken', f'⟩ := t.wellFormed.takeBlock_roomy t.mirror.roomy.2 d.name
    (d.blockSize (payload.map σ).children.length)
  obtain ⟨dead, w, -⟩ := Change.make_writes b.wellFormed (.fresh type d payload) taken
  obtain ⟨dead', w', -⟩ := Change.make_writes t.wellFormed (.fresh type d (payload.map σ)) taken'
  obtain ⟨τ, rfl, same, t'⟩ := t.swap dead dead'
  refine ⟨r, _, _, τ, Heap.construct_of_taken known taken, Heap.construct_of_taken known' taken', ?_, ?_⟩
  · intro a ha
    obtain ⟨o, live⟩ := t.live (Multiset.mem_add.mpr (Or.inr ha))
    exact same a o live
  · have fits' : (payload.map σ).Fits type := by cases payload <;> exact fits
    refine change t' (.make known fits taken) (.make known' fits' taken') rfl rfl ?_
    refine t'.mirror.write (f.setSlot _ _) (f'.setSlot _ _) w w' ?_
    have hp : payload.map σ = payload.map τ := by
      refine Payload.map_congr fun a ha => ?_
      obtain ⟨o, live⟩ := t.live (Multiset.mem_add.mpr (Or.inl ha))
      exact (same a o live).symm
    show some (Object.fresh type d (payload.map σ)) = some ((Object.fresh type d payload).map τ)
    unfold Object.fresh Object.map
    rw [length, hp]

end Twin

/-! ### Rules -/

namespace Tandem

variable {σ τ : Equiv.Perm Ref} {rest : Multiset Ref} {h h' : Heap κ} {R : Equiv.Perm Ref → α → β → Prop}
  {R' : Equiv.Perm Ref → γ → δ → Prop} {mid : α → Multiset Ref} {made : γ → Multiset Ref}

/-- The end of an operation. -/
theorem done {g g' : Heap κ} {a : α} {b : β} (t : Twin σ (mid a + rest) g g') (hR : R σ a b) :
    Tandem R mid rest σ (.ok (a, g)) (.ok (b, g')) := ⟨σ, .refl _ _, hR, t⟩

/-- The same, seen from an earlier moment. -/
theorem before {x : Except Fault (α × Heap κ)} {y : Except Fault (β × Heap κ)} (keeps : Keeps rest σ τ)
    (hx : Tandem R mid rest τ x y) : Tandem R mid rest σ x y :=
  Matches.mono hx fun _ _ ⟨υ, last, hR, t⟩ => ⟨υ, keeps.trans last, hR, t⟩

/-- One computation after the other. -/
theorem bind {x : Except Fault (α × Heap κ)} {y : Except Fault (β × Heap κ)}
    {f : α × Heap κ → Except Fault (γ × Heap κ)} {f' : β × Heap κ → Except Fault (δ × Heap κ)}
    (hx : Tandem R mid rest σ x y)
    (hf : ∀ τ a b g g', Keeps rest σ τ → R τ a b → Twin τ (mid a + rest) g g' →
      Tandem R' made rest τ (f (a, g)) (f' (b, g'))) :
    Tandem R' made rest σ (x >>= f) (y >>= f') :=
  Matches.bind hx fun p q ⟨τ, keeps, hR, t⟩ => before keeps (hf τ p.1 q.1 p.2 q.2 keeps hR t)

/-- One operation that may fail after the other; a failure ends them. -/
theorem runBind {m : RunM κ α} {m' : RunM κ β} {f : α → RunM κ γ} {f' : β → RunM κ δ}
    (hm : RunTandem R mid rest σ (m h) (m' h'))
    (hf : ∀ τ a b g g', Keeps rest σ τ → R τ a b → Twin τ (mid a + rest) g g' →
      RunTandem R' made rest τ (f a g) (f' b g')) :
    RunTandem R' made rest σ ((m >>= f) h) ((m' >>= f') h') := by
  refine bind hm fun τ x y g g' keeps hm t => ?_
  rcases hm.cases with ⟨a, b, rfl, rfl, hR⟩ | ⟨e, rfl, rfl⟩
  · exact hf τ a b g g' keeps hR t
  · exact done t rfl

/-- An operation that cannot fail among those that may. -/
theorem lift {m : HeapM κ α} {m' : HeapM κ β} (hm : Tandem R mid rest σ (m h) (m' h')) :
    RunTandem R mid rest σ ((ExceptT.lift m : RunM κ α) h) ((ExceptT.lift m' : RunM κ β) h') :=
  bind hm fun _ _ _ _ _ _ hR t => done t hR

/-- Reading first, which leaves the heaps as they are. -/
theorem read {f : Heap κ → ReadM α} {φ : α → β} {k : α → RunM κ γ} {k' : β → RunM κ δ} {f' : Heap κ → ReadM β}
    (t : Twin σ rest h h') (hf : f' h' = Except.map (Except.map φ) (f h))
    (hk : ∀ a, f h = .ok (.ok a) → RunTandem R' made rest σ (k a h) (k' (φ a) h')) :
    RunTandem R' made rest σ ((Heap.reading f >>= k) h) ((Heap.reading f' >>= k') h') := by
  have hr : Matches (fun p q => p.2 = h ∧ q.2 = h' ∧ q.1 = p.1.map φ ∧ f h = .ok p.1) (Heap.reading f h)
      (Heap.reading f' h') := by
    unfold Heap.reading
    rw [hf]
    cases f h with
    | ok x => exact ⟨rfl, rfl, rfl, rfl⟩
    | error e => exact rfl
  refine Matches.bind hr fun p q hp => ?_
  obtain ⟨x, g⟩ := p
  obtain ⟨y, g'⟩ := q
  obtain ⟨rfl, rfl, rfl, hx⟩ := hp
  cases x with
  | ok a => exact hk a hx
  | error e => exact done t.zero_add rfl

/-- Reading what does not depend on where objects are. -/
theorem look {f f' : Heap κ → ReadM α} {k : α → RunM κ γ} {k' : α → RunM κ δ} (t : Twin σ rest h h')
    (hf : f' h' = f h) (hk : ∀ a, RunTandem R' made rest σ (k a h) (k' a h')) :
    RunTandem R' made rest σ ((Heap.reading f >>= k) h) ((Heap.reading f' >>= k') h') := by
  refine read (φ := id) t ?_ fun a _ => hk a
  rw [hf, Except.map_id, Except.map_id]
  rfl

/-- A failure. -/
theorem fail (t : Twin σ rest h h') (e : RunError) :
    RunTandem R' made rest σ ((throw e : RunM κ γ) h) ((throw e : RunM κ δ) h') :=
  done t.zero_add rfl

/-- What was only looked at is given back. -/
theorem consuming {refs : List Ref} {body : RunM κ α} {body' : RunM κ β}
    (hb : RunTandem R mid (refs + rest) σ (body h) (body' h')) :
    RunTandem R mid rest σ (Heap.consuming refs body h) (Heap.consuming (refs.map σ) body' h') := by
  refine Matches.bind hb fun p q hp => ?_
  obtain ⟨τ, keeps, hR, t⟩ := hp
  rw [← keeps.map_eq fun a ha => Multiset.mem_add.mpr (Or.inl ha)]
  rw [add_left_comm] at t
  exact ⟨τ, keeps.mono (Multiset.subset_of_le (Multiset.le_add_left _ _)), hR, t.releaseAll⟩

end Tandem

/-! ### What a heap does itself -/

namespace Heap

variable {σ : Equiv.Perm Ref} {rest : Multiset Ref} {h h' : Heap κ}

theorem newRef_tandem {r : Ref} (t : Twin σ rest h h') (live : ∃ o, h.object? r = some o) :
    Tandem Renamed ({·}) rest σ (newRef r h) (newRef (σ r) h') := by
  obtain ⟨o, live⟩ := live
  unfold newRef Heap.acquire
  rw [live, t.mirror.live live]
  exact .done (t.acquire live) rfl

theorem hit_tandem {r : Ref} (t : Twin σ rest h h') (hr : r.index < h.interned.count) :
    Tandem Renamed ({·}) rest σ (hit r h) (hit r h') := by
  obtain ⟨lost, b⟩ := t.balanced
  obtain ⟨o, live, -⟩ := b.interned_live hr
  have hn := newRef_tandem (t.emit (.hit r) (.hit r)) ⟨o, live⟩
  rw [t.mirror.fixed r hr] at hn
  exact hn

/-- A new object that owns nothing. -/
theorem construct_tandem {type : TypeId} {payload : Payload} {d : Descriptor κ}
    (t : Twin σ (payload.children + rest) h h') (known : h.types.get? type = some d) (fits : payload.Fits type) :
    RunTandem Renamed ({·}) rest σ (construct type payload h) (construct type (payload.map σ) h') := by
  obtain ⟨r, g, g', τ, hx, hx', keeps, t'⟩ := t.construct known fits
  rw [hx, hx']
  exact ⟨τ, keeps, rfl, t'⟩

theorem short_tandem (t : Twin σ rest h h') (v : Int32) :
    RunTandem Renamed ({·}) rest σ (short v h) (short v h') := by
  obtain ⟨lost, b⟩ := t.balanced
  unfold short
  rw [t.mirror.interned]
  cases hi : h.interned.short? v with
  | some r => exact .lift (hit_tandem t (Interned.short?_lt hi))
  | none =>
    obtain ⟨d, known⟩ := b.wellFormed.builtin_known .short rfl
    have fits : (Payload.short v).Fits .short := rfl
    exact construct_tandem t.zero_add known fits

theorem tuple_tandem {items : List Ref} (t : Twin σ (items + rest) h h') :
    RunTandem Renamed ({·}) rest σ (tuple items h) (tuple (items.map σ) h') := by
  obtain ⟨lost, b⟩ := t.balanced
  obtain ⟨d, known⟩ := b.wellFormed.builtin_known .tuple rfl
  have fits : (Payload.tuple items).Fits .tuple := rfl
  exact construct_tandem t known fits

theorem allocate_tandem (t : Twin σ rest h h') (type : TypeId) (n : Int64) :
    RunTandem Renamed ({·}) rest σ (allocate type n h) (allocate type n h') := by
  unfold allocate
  rw [t.mirror.types]
  split
  · exact .fail t _
  · rename_i hc
    rw [Bool.or_eq_true, not_or, Bool.not_eq_true, Bool.not_eq_true, Bool.not_eq_false'] at hc
    obtain ⟨hb, hin⟩ := hc
    have hlt : type.index < h.types.types.size := by
      simpa [Registry.contains] using hin
    have fits : (Payload.host n).Fits type := hb
    exact construct_tandem t.zero_add (Array.getElem?_eq_getElem hlt) fits

theorem item_tandem {a : Ref} (t : Twin σ rest h h') (ha : a ∈ rest) (op : String) (index : Int) :
    RunTandem Renamed ({·}) rest σ (item op a index h) (item op (σ a) index h') := by
  obtain ⟨lost, b⟩ := t.balanced
  refine .read t (t.mirror.tupleItem op a index) fun r hr => .lift (newRef_tandem t ?_)
  exact (b.tupleItem_ends op index (t.live ha)).of_ok hr r rfl

namespace Short

theorem result_tandem (t : Twin σ rest h h') (op : String) (v : Option Int32) :
    RunTandem Renamed ({·}) rest σ ((checked op v >>= short : RunM κ Ref) h) ((checked op v >>= short : RunM κ Ref) h') := by
  cases v with
  | some v => exact short_tandem t v
  | none => exact .fail t _

theorem unary_tandem {a : Ref} (t : Twin σ ([a] + rest) h h') (op : UnaryOp) (f : Int32 → Option Int32) :
    RunTandem Renamed ({·}) rest σ (unary op f a h) (unary op f (σ a) h') :=
  .consuming (.look t (t.mirror.shortValue _ a) fun _ => result_tandem t _ _)

theorem arithmetic_tandem {a b : Ref} (t : Twin σ ([a, b] + rest) h h') (op : BinaryOp)
    (f : Int32 → Int32 → Option Int32) :
    RunTandem Renamed ({·}) rest σ (arithmetic op f a b h) (arithmetic op f (σ a) (σ b) h') :=
  .consuming (.look t (t.mirror.shortValue _ a) fun _ => .look t (t.mirror.shortValue _ b) fun _ =>
    result_tandem t _ _)

theorem division_tandem {a b : Ref} (t : Twin σ ([a, b] + rest) h h') (op : BinaryOp)
    (f : Int32 → Int32 → Option Int32) :
    RunTandem Renamed ({·}) rest σ (division op f a b h) (division op f (σ a) (σ b) h') := by
  refine .consuming (.look t (t.mirror.shortValue _ a) fun _ => .look t (t.mirror.shortValue _ b) fun _ => ?_)
  split
  · exact .fail t _
  · exact result_tandem t _ _

theorem power_tandem {a b c : Ref} (t : Twin σ ([a, b, c] + rest) h h') :
    RunTandem Renamed ({·}) rest σ (power a b c h) (power (σ a) (σ b) (σ c) h') := by
  refine .consuming (.look t (t.mirror.shortValue _ a) fun _ => .look t (t.mirror.shortValue _ b) fun _ => ?_)
  split
  · exact .fail t _
  have hc : (h'.get (σ c) : ReadM Object) = Except.map (Except.map (Object.map σ)) (h.get c : ReadM Object) := by
    rw [t.mirror.get]
    cases h.get c <;> rfl
  refine .read t hc fun o _ => ?_
  by_cases ho : o.type = .none
  · have ho' : (o.map σ).type = .none := ho
    rw [if_pos ho, if_pos ho']
    exact result_tandem t _ _
  · have ho' : ¬ (o.map σ).type = .none := ho
    rw [if_neg ho, if_neg ho']
    refine .look t (t.mirror.shortValue _ c) fun _ => ?_
    split
    · exact .fail t _
    · exact short_tandem t _

end Short

namespace Tuple

theorem share_cons {r : Ref} {o : Object} (live : h.object? r = some o) (items : List Ref) :
    share (r :: items) h = share items (h.setSlot r (.live { o with refcount := o.refcount + 1 })) := by
  show (newRef r >>= fun _ => share items) h = _
  unfold newRef Heap.acquire
  simp only [bind, StateT.bind, live]
  rfl

/-- Items that are live are shared in either heap. -/
theorem share_tandem : ∀ {items : List Ref} {rest : Multiset Ref} {h h' : Heap κ}, Twin σ rest h h' →
    (∀ r ∈ items, ∃ o, h.object? r = some o) →
    Tandem (fun τ _ _ => τ = σ) (fun _ => items) rest σ (share items h) (share (items.map σ) h')
  | [], rest, h, h', t, _ => .done t.zero_add rfl
  | r :: items, rest, h, h', t, live => by
    obtain ⟨o, hr⟩ := live r List.mem_cons_self
    have ih := share_tandem (t.acquire hr) fun a ha =>
      live_setSlot { o with refcount := o.refcount + 1 } hr (live a (List.mem_cons_of_mem r ha))
    rw [List.map_cons, share_cons hr, share_cons (t.mirror.live hr)]
    refine Matches.mono ih fun p q hp => ?_
    obtain ⟨τ, keeps, rfl, t'⟩ := hp
    rw [← add_assoc, add_comm (items : Multiset Ref), Multiset.singleton_add, Multiset.cons_coe] at t'
    exact ⟨τ, .refl _ _, rfl, t'⟩

theorem concat_tandem {a b : Ref} (t : Twin σ ([a, b] + rest) h h') :
    RunTandem Renamed ({·}) rest σ (concat a b h) (concat (σ a) (σ b) h') := by
  obtain ⟨lost, bal⟩ := t.balanced
  refine .consuming (.read t (t.mirror.tupleItems _ a) fun xs hx => .read t (t.mirror.tupleItems _ b) fun ys hy => ?_)
  have live : ∀ r ∈ xs ++ ys, ∃ o, h.object? r = some o := by
    intro r hr
    rcases List.mem_append.mp hr with hr | hr
    · exact (bal.tupleItems_ends _ (t.live (by simp))).of_ok hx xs rfl r hr
    · exact (bal.tupleItems_ends _ (t.live (by simp))).of_ok hy ys rfl r hr
  rw [← List.map_append]
  refine .runBind (.lift (share_tandem t live)) fun τ _ _ g g' _ he t' => ?_
  subst he
  exact tuple_tandem t'

theorem subscript_tandem {a b : Ref} (t : Twin σ ([a, b] + rest) h h') :
    RunTandem Renamed ({·}) rest σ (subscript a b h) (subscript (σ a) (σ b) h') :=
  .consuming (.look t (t.mirror.shortValue _ b) fun _ => item_tandem t (by simp) _ _)

end Tuple

end Heap

end CountedHeap
