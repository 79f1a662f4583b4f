/-
# What a release does, exactly

Which objects a release brings down, and what is left of the others, is said by
`Heap.Fells`. Here is the rest. The work comes to an end: there are never more rounds
than references that live objects own, and one (`Heap.cascade_works`). And it ends
without a complaint exactly if everything that was given back was there to be given
back: nothing outside the live objects, no more references to an object than it had,
and not the last one of an immortal object (`Heap.Bears`).

The heap is any whose live objects have references, with whatever they own: slots that
hold no object, the same object several times, or themselves.

Key definitions: `Heap.Works`, `Heap.Bears`, `Heap.Reports`.
Key theorem: `release_exact`.
-/
import CountedHeap.Proofs.Cascade
import CountedHeap.Proofs.Balance

namespace CountedHeap

variable {κ : Role → Type}

namespace Heap

/-! ### The work ends -/

/-- The work on pending references comes to the end `out` in so many rounds. -/
inductive Works : Heap κ → Option Inconsistency → List Ref → Nat → Heap κ × Option Inconsistency → Prop where
  | done (h : Heap κ) (first : Option Inconsistency) : Works h first [] 0 (h, first)
  | refuse {h : Heap κ} {first : Option Inconsistency} {r : Ref} {rest : List Ref} {cause : Inconsistency} {n : Nat}
      {out : Heap κ × Option Inconsistency} (verdict : h.verdict r = .refused cause)
      (more : Works h (first.or (some cause)) rest n out) : Works h first (r :: rest) (n + 1) out
  | keep {h : Heap κ} {first : Option Inconsistency} {r : Ref} {rest : List Ref} {o : Object} {n : Nat}
      {out : Heap κ × Option Inconsistency} (verdict : h.verdict r = .kept o)
      (more : Works (h.decrement r o) first rest n out) : Works h first (r :: rest) (n + 1) out
  /-- What a dead object owned comes before the rest, the last first. -/
  | die {h : Heap κ} {first : Option Inconsistency} {r : Ref} {rest : List Ref} {o : Object} {n : Nat}
      {out : Heap κ × Option Inconsistency} (verdict : h.verdict r = .dies o)
      (more : Works (h.bury r o) first (o.payload.children.reverse ++ rest) n out) : Works h first (r :: rest) (n + 1) out

/-- A release ends within as many rounds as references are pending or owned. -/
theorem cascade_works (h : Heap κ) (first : Option Inconsistency) (pending : List Ref) :
    ∃ n ≤ pending.length + h.store.childCount, Works h first pending n (h.cascade first pending) := by
  fun_induction Heap.cascade h first pending with
  | case1 h first => exact ⟨0, Nat.zero_le _, .done h first⟩
  | case2 h first r rest cause hv ih =>
    obtain ⟨n, hn, w⟩ := ih
    refine ⟨n + 1, ?_, .refuse hv w⟩
    rw [List.length_cons]
    omega
  | case3 h first r rest o hv ih =>
    obtain ⟨n, hn, w⟩ := ih
    refine ⟨n + 1, ?_, .keep hv w⟩
    rw [childCount_decrement hv] at hn
    rw [List.length_cons]
    omega
  | case4 h first r rest o hv ih =>
    obtain ⟨n, hn, w⟩ := ih
    refine ⟨n + 1, ?_, .die hv w⟩
    have hless := childCount_bury hv
    rw [List.length_append, List.length_reverse] at hn
    rw [List.length_cons]
    omega

/-! ### The complaint -/

/-- `n` references to `a` can be given back: it has as many, and one more if it is immortal. -/
def Bears (h : Heap κ) (a : Ref) (n : Nat) : Prop :=
  (h.object? a = Option.none → n = 0) ∧
    ∀ o, h.object? a = some o → n + (if o.immortal then 1 else 0) ≤ o.refcount

/-- From `h` to `g`, what has been met is a complaint exactly if more has been given back
than could be: of `refs` and of what the objects `dead` owned, all but those in `left`. -/
structure Reports (h : Heap κ) (refs : Multiset Ref) (dead : Finset Ref) (left : Multiset Ref) (g : Heap κ)
    (first : Option Inconsistency) : Prop where
  violations : g.violations = h.violations
  none_iff : first = Option.none ↔ ∀ a, h.Bears a (h.returned refs dead a - left.count a)

variable {h g : Heap κ} {refs left : Multiset Ref} {dead : Finset Ref} {r a : Ref} {o : Object}
  {first : Option Inconsistency}

theorem Bears.mono {n m : Nat} (b : h.Bears a n) (le : m ≤ n) : h.Bears a m :=
  ⟨fun dead => Nat.le_zero.mp (b.1 dead ▸ le), fun o live => Nat.le_trans (Nat.add_le_add_right le _) (b.2 o live)⟩

theorem Bears.of_object (live : h.object? a = some o) {n : Nat} (fits : n + (if o.immortal then 1 else 0) ≤ o.refcount) :
    h.Bears a n := by
  refine ⟨fun dead => ?_, fun o' live' => ?_⟩
  · rw [live] at dead
    cases dead
  · rw [live] at live'
    cases live'
    exact fits

/-- One more reference to an object that bears it changes nothing. -/
theorem bears_all_iff (bears : h.Bears r (h.returned refs dead r - left.count r)) :
    (∀ a, h.Bears a (h.returned refs dead a - (r ::ₘ left).count a)) ↔
      ∀ a, h.Bears a (h.returned refs dead a - left.count a) := by
  refine ⟨fun all a => ?_, fun all a => ?_⟩
  · by_cases ha : a = r
    · rw [ha]
      exact bears
    · rw [← Fells.lost_other ha]
      exact all a
  · have hle := Multiset.count_le_count_cons a r left
    exact (all a).mono (by omega)

/-- A reference is refused if it was not there to be given back. -/
theorem not_bears_of_refused {cause : Inconsistency} (f : h.Fells refs dead (r ::ₘ left) g)
    (refused : g.verdict r = .refused cause) : ¬ h.Bears r (h.returned refs dead r - left.count r) := by
  intro bears
  rw [f.lost_self] at bears
  have hobject := f.objects r
  by_cases hr : r ∈ dead
  · -- all the references it had have been given back already
    obtain ⟨-, old, hold, -, hle⟩ := (f.mem_dead r).mp hr
    have hb := bears.2 old hold
    omega
  · rw [if_neg hr] at hobject
    cases hold : h.object? r with
    | none => exact absurd (bears.1 hold) (Nat.succ_ne_zero _)
    | some old =>
      rw [hold, Option.map_some] at hobject
      obtain ⟨him, hone⟩ := verdict_refused refused hobject
      have him' : old.immortal = true := him
      have hb := bears.2 old hold
      simp only [Object.less, him', if_true] at hone hb
      omega

namespace Reports

theorem refl (counted : ∀ a o, h.object? a = some o → 1 ≤ o.refcount) (refs : Multiset Ref) :
    h.Reports refs ∅ refs h Option.none := by
  refine ⟨rfl, fun _ a => ?_, fun _ => rfl⟩
  have hn : h.returned refs ∅ a - refs.count a = 0 := by simp [returned]
  rw [hn]
  refine ⟨fun _ => rfl, fun o live => ?_⟩
  have hc := counted a o live
  split <;> omega

theorem refuse {cause : Inconsistency} (f : h.Fells refs dead (r ::ₘ left) g) (refused : g.verdict r = .refused cause)
    (reports : h.Reports refs dead (r ::ₘ left) g first) : h.Reports refs dead left g (first.or (some cause)) := by
  refine ⟨reports.violations, fun hnone => ?_, fun all => absurd (all r) (not_bears_of_refused f refused)⟩
  cases first <;> cases hnone

theorem keep (f : h.Fells refs dead (r ::ₘ left) g) (kept : g.verdict r = .kept o)
    (reports : h.Reports refs dead (r ::ₘ left) g first) : h.Reports refs dead left (g.decrement r o) first := by
  refine ⟨reports.violations, reports.none_iff.trans (bears_all_iff ?_)⟩
  obtain ⟨live, several⟩ := verdict_kept kept
  obtain ⟨-, old, hold, rfl⟩ := f.object?_eq live
  refine Bears.of_object hold ?_
  rw [f.lost_self]
  simp only [Object.less] at several
  split at several <;> simp only [*, if_true, if_false, Bool.false_eq_true] <;> omega

/-- An object dies of its last reference, and so never of one too many. -/
theorem die (counted : ∀ a o, h.object? a = some o → 1 ≤ o.refcount) (f : h.Fells refs dead (r ::ₘ left) g)
    (dies : g.verdict r = .dies o) (reports : h.Reports refs dead (r ::ₘ left) g first) :
    h.Reports refs (insert r dead) (o.payload.children + left) (g.bury r o) first := by
  obtain ⟨live, last, mortal⟩ := verdict_dies dies
  obtain ⟨hr, old, hold, rfl⟩ := f.object?_eq live
  obtain ⟨hm, -⟩ := Object.mortal_of_less last mortal
  have hviolations : (g.bury r (old.less (h.returned refs dead r - (r ::ₘ left).count r))).violations = g.violations := by
    rcases bury_cases g r _ with ⟨c, -, -, he⟩ | he <;> rw [he] <;> rfl
  refine ⟨hviolations.trans reports.violations, (reports.none_iff.trans (bears_all_iff ?_)).trans ?_⟩
  · refine Bears.of_object hold ?_
    have hc := counted r old hold
    have hnot : ¬ h.Doomed r (h.returned refs dead r - (r ::ₘ left).count r) := fun d => hr ((f.mem_dead r).mpr d)
    rw [f.lost_self, hm, if_neg Bool.false_ne_true]
    by_contra hmany
    exact hnot ⟨by omega, old, hold, hm, by omega⟩
  · exact forall_congr' fun a => by rw [← Fells.lost_insert hr hold a]; rfl

end Reports

/-- A release tells whether all that was given back was there to be given back. -/
theorem tryRelease_fells (counted : ∀ a o, h.object? a = some o → 1 ≤ o.refcount) (a : Ref) :
    ∃ dead, h.Fells {a} dead 0 (h.tryRelease a).1 ∧
      h.Reports {a} dead 0 (h.tryRelease a).1 (h.tryRelease a).2 := by
  have f := Fells.refl counted {a}
  have reports := Reports.refl counted {a}
  rw [← Multiset.coe_singleton, ← add_zero (([a] : List Ref) : Multiset Ref)] at f reports
  exact cascade_fells Reports.refuse Reports.keep (Reports.die counted) Option.none [a] f reports

/-- What was given back to an object at the end. -/
theorem Fells.object?_end (f : h.Fells refs dead 0 g) (live : h.object? a = some o) (alive : a ∉ dead) :
    g.object? a = some (o.less (h.returned refs dead a)) := by
  rw [f.objects a, if_neg alive, live, Multiset.count_zero, Nat.sub_zero]
  rfl

theorem Fells.mem_dead_end (f : h.Fells refs dead 0 g) (a : Ref) :
    a ∈ dead ↔ h.Doomed a (h.returned refs dead a) := by
  rw [f.mem_dead a, Multiset.count_zero, Nat.sub_zero]

/-- The dead are the objects that are gone. -/
theorem Fells.mem_dead_iff_gone (f : h.Fells refs dead 0 g) (a : Ref) :
    a ∈ dead ↔ (∃ o, h.object? a = some o) ∧ g.object? a = Option.none := by
  refine ⟨fun ha => ?_, fun ⟨⟨o, live⟩, gone⟩ => ?_⟩
  · obtain ⟨-, o, live, -⟩ := (f.mem_dead a).mp ha
    exact ⟨⟨o, live⟩, by rw [f.objects a, if_pos ha]⟩
  · by_contra ha
    rw [f.object?_end live ha] at gone
    cases gone

/-- A mortal object that is still there has lost what was given back, and not all it had. -/
theorem Fells.mortal_end (counted : ∀ a o, h.object? a = some o → 1 ≤ o.refcount) (f : h.Fells refs dead 0 g)
    (live : h.object? a = some o) (mortal : o.immortal = false) (alive : a ∉ dead) :
    h.returned refs dead a < o.refcount ∧
      g.object? a = some { o with refcount := o.refcount - h.returned refs dead a } := by
  constructor
  · by_contra hmany
    have hc := counted a o live
    exact alive ((f.mem_dead_end a).mpr ⟨by omega, o, live, mortal, by omega⟩)
  · rw [f.object?_end live alive]
    simp [Object.less, mortal]

/-- An immortal object never dies and keeps its last reference. -/
theorem Fells.immortal_end (f : h.Fells refs dead 0 g) (live : h.object? a = some o) (immortal : o.immortal = true) :
    g.object? a = some { o with refcount := max 1 (o.refcount - h.returned refs dead a) } := by
  have alive : a ∉ dead := by
    intro ha
    obtain ⟨-, o', live', mortal, -⟩ := (f.mem_dead a).mp ha
    rw [live] at live'
    cases live'
    exact Bool.false_ne_true (mortal.symm.trans immortal)
  rw [f.object?_end live alive]
  simp [Object.less, immortal]

theorem bears_iff (n : Ref → Nat) :
    (∀ a, h.Bears a (n a)) ↔ (∀ a, h.object? a = Option.none → n a = 0) ∧
      (∀ a o, h.object? a = some o → o.immortal = false → n a ≤ o.refcount) ∧
      ∀ a o, h.object? a = some o → o.immortal = true → n a < o.refcount := by
  refine ⟨fun all => ⟨fun a => (all a).1, fun a o live mortal => ?_, fun a o live immortal => ?_⟩,
    fun ⟨gone, mortals, immortals⟩ a => ⟨gone a, fun o live => ?_⟩⟩
  · simpa [mortal] using (all a).2 o live
  · have hb := (all a).2 o live
    rwa [immortal, if_pos rfl] at hb
  · cases him : o.immortal with
    | true => exact immortals a o live him
    | false => exact mortals a o live him

/-- A release counts a violation exactly if it met an inconsistency, and does the same otherwise. -/
theorem release_eq_tryRelease (h : Heap κ) (a : Ref) :
    (h.release a).store = (h.tryRelease a).1.store ∧ (h.release a).ledger = (h.tryRelease a).1.ledger ∧
      (h.release a).violations =
        (h.tryRelease a).1.violations + if (h.tryRelease a).2 = Option.none then 0 else 1 := by
  unfold release
  split
  · rename_i g he
    rw [he]
    exact ⟨rfl, rfl, rfl⟩
  · rename_i g cause he
    rw [he]
    exact ⟨rfl, rfl, rfl⟩

end Heap

/-- **The exact meaning of a release.** Let `dead` be the objects that releasing `a` takes away, and `rel r` how
often `r` is given back, by the caller and by the dead. The dead are the least set that has in it exactly the mortal
objects given back at least as often as they have references; every other object loses as many references as are
given back, an immortal one all but its last; and there is a complaint exactly if something is given back that was
not live or too often. A release that counts complaints does the same. -/
theorem release_exact {h : Heap κ} (counted : ∀ r o, h.object? r = some o → 1 ≤ o.refcount) (a : Ref) :
    ∃ (dead : Finset Ref) (rel : Ref → Nat) (g : Heap κ) (complaint : Option Inconsistency),
      h.tryRelease a = (g, complaint) ∧
      (∃ n ≤ 1 + h.store.childCount, h.Works none [a] n (g, complaint)) ∧
      (∀ r, r ∈ dead ↔ (∃ o, h.object? r = some o) ∧ g.object? r = none) ∧
      rel = h.returned {a} dead ∧
      (∀ r, r ∈ dead ↔ h.Doomed r (rel r)) ∧
      (∀ dead' : Finset Ref, (∀ r, h.Doomed r (h.returned {a} dead' r) → r ∈ dead') → dead ⊆ dead') ∧
      (∀ r o, h.object? r = some o → o.immortal = false → r ∉ dead →
        rel r < o.refcount ∧ g.object? r = some { o with refcount := o.refcount - rel r }) ∧
      (∀ r o, h.object? r = some o → o.immortal = true →
        g.object? r = some { o with refcount := max 1 (o.refcount - rel r) }) ∧
      (∀ r, h.object? r = none → g.object? r = none) ∧
      (complaint = none ↔ (∀ r, h.object? r = none → rel r = 0) ∧
        (∀ r o, h.object? r = some o → o.immortal = false → rel r ≤ o.refcount) ∧
        ∀ r o, h.object? r = some o → o.immortal = true → rel r < o.refcount) ∧
      (h.release a).store = g.store ∧ (h.release a).ledger = g.ledger ∧
      (h.release a).violations = h.violations + if complaint = none then 0 else 1 := by
  obtain ⟨dead, f, reports⟩ := Heap.tryRelease_fells counted a
  obtain ⟨store, ledger, violations⟩ := h.release_eq_tryRelease a
  have complaint := reports.none_iff
  simp only [Multiset.count_zero, Nat.sub_zero] at complaint
  rw [reports.violations] at violations
  refine ⟨dead, _, (h.tryRelease a).1, (h.tryRelease a).2, rfl, h.cascade_works none [a], f.mem_dead_iff_gone, rfl,
    f.mem_dead_end, f.least, fun r o live mortal alive => f.mortal_end counted live mortal alive,
    fun r o live immortal => f.immortal_end live immortal, fun r gone => ?_,
    complaint.trans (Heap.bears_iff _), store, ledger, violations⟩
  rw [f.objects r, gone]
  exact ite_self _

namespace Stock

/-- A short with two references, and a tuple that owns it twice, itself, nothing at all, and an
immortal object it was never given. -/
def tangled : List (Request Name) := [.short 300, .acquire ⟨3⟩, .tuple [⟨3⟩, ⟨3⟩, ⟨4⟩, ⟨9⟩, ⟨0⟩]]

end Stock

/-- The tuple and the short die, the immortal object does not, and there is a complaint. -/
theorem release_exact_tangled :
    ∃ (h g : Heap Stock.Name) (dead : Finset Ref) (cause : Inconsistency),
      Reached (Stock.host 8) (.ofConfig Stock.sampleConfig) h ∧ h.tryRelease ⟨4⟩ = (g, some cause) ∧
      ⟨3⟩ ∈ dead ∧ ⟨4⟩ ∈ dead ∧ ⟨0⟩ ∉ dead ∧ h.Doomed ⟨3⟩ (h.returned {⟨4⟩} dead ⟨3⟩) ∧
      (g.object? ⟨0⟩).map Object.refcount = some 1 ∧ (h.release ⟨4⟩).violations = h.violations + 1 := by
  have hrun : (((Stock.host 8).performAll Stock.tangled (.ofConfig Stock.sampleConfig)).toOption).map
      (fun h => ([⟨0⟩, ⟨3⟩, ⟨4⟩].map fun r => ((h.object? r).isSome, ((h.tryRelease ⟨4⟩).1.object? r).map Object.refcount),
        (h.tryRelease ⟨4⟩).2.isSome)) =
          some ([(true, some 1), (true, none), (true, none)], true) := by decide +kernel
  obtain ⟨h, hp, hseen⟩ := Reached.of_performAll _ hrun
  have reached : Reached (Stock.host 8) (.ofConfig Stock.sampleConfig) h := .performAll .start hp
  obtain ⟨dead, rel, g, complaint, done, -, gone, rfl, doomed, -, -, -, -, -, -, -, violations⟩ :=
    release_exact (fun r o live => (reached.wellFormed.objects r o live).counted) ⟨4⟩
  rw [done] at hseen
  simp only [List.map_cons, List.map_nil, Prod.mk.injEq, List.cons.injEq, Option.map_eq_none_iff] at hseen
  obtain ⟨⟨⟨-, left⟩, ⟨live₃, gone₃⟩, ⟨live₄, gone₄⟩, -⟩, hcause⟩ := hseen
  obtain ⟨cause, rfl⟩ := Option.isSome_iff_exists.mp hcause
  have dead₃ := (gone ⟨3⟩).mpr ⟨Option.isSome_iff_exists.mp live₃, gone₃⟩
  have dead₄ := (gone ⟨4⟩).mpr ⟨Option.isSome_iff_exists.mp live₄, gone₄⟩
  refine ⟨h, g, dead, cause, reached, done, dead₃, dead₄, fun dead₀ => ?_, (doomed _).mp dead₃, left, violations⟩
  rw [((gone ⟨0⟩).mp dead₀).2] at left
  cases left

end CountedHeap
