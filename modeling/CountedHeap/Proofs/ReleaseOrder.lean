/-
# The order of releases does not matter

References can be given back in any order: the same objects die, the others are left
with the same counts, as many blocks of each size are parked, as many slots are
vacant, and the books are the same. What does depend on the order is which of the dead
leave a parked block and how the lists of free slots are arranged; and, if references
were forged, how many of the releases are counted as violations, since a violation is
counted once for a whole release. In a balanced run there is none.

Key theorem: `release_order_irrelevant`.
-/
import CountedHeap.Proofs.Cascade
import CountedHeap.Proofs.Failure

namespace CountedHeap

variable {κ : Role → Type}

/-- What a run holds is given back without a violation. -/
theorem Run.releaseAll_violations {host : Host κ} (disciplined : host.Disciplined) {c : Config} {h : Heap κ}
    {refs : List Ref} {rest : Multiset Ref} (run : Run host 0 (.ofConfig c) 0 h (refs + rest)) :
    (h.releaseAll refs).violations = h.violations := by
  have b := run.balanced disciplined (Heap.balanced_ofConfig c)
  exact (Heap.releaseAll_deals b).violations

/-- **The order of releases does not matter.** Let references be given back in two orders to
a heap that can be reached, by whatever references. Both heaps have the same
live objects with the same counts and contents, as many parked blocks of each size and as many
vacant slots; their books, those of the tracker included, agree, and so do their types, depth and
number of slots. If a balanced run holds the references, neither order counts a violation. -/
theorem release_order_irrelevant {host : Host κ} {c : Config} {h : Heap κ} (reached : Reached host (.ofConfig c) h)
    {refs refs' : List Ref} (perm : refs.Perm refs') :
    ∃ g g', host.performAll (refs.map .release) h = .ok g ∧ host.performAll (refs'.map .release) h = .ok g' ∧
      (∀ r, g'.object? r = g.object? r) ∧
      (∀ size, g'.store.parkedOf size = g.store.parkedOf size) ∧
      g'.store.vacant.length = g.store.vacant.length ∧ g'.ledger = g.ledger ∧
      g'.store.slots.size = g.store.slots.size ∧ g'.types = g.types ∧ g'.interned = g.interned ∧ g'.depth = g.depth ∧
      (host.Disciplined → ∀ rest, Run host 0 (.ofConfig c) 0 h (refs + rest) →
        g.violations = h.violations ∧ g'.violations = h.violations) := by
  have hrefs : (refs' : Multiset Ref) = refs := (Multiset.coe_eq_coe.mpr perm).symm
  obtain ⟨dead, f, k⟩ := Heap.releaseAll_fells reached.wellFormed refs
  obtain ⟨dead', f', k'⟩ := Heap.releaseAll_fells reached.wellFormed refs'
  rw [hrefs] at f'
  obtain ⟨rfl, objects⟩ := f.unique f'
  obtain ⟨parked, vacant, ledger⟩ := k.unique k'
  refine ⟨_, _, host.performAll_release refs h, host.performAll_release refs' h, objects, parked, vacant, ledger,
    k'.slots.trans k.slots.symm, k'.types.trans k.types.symm, k'.interned.trans k.interned.symm,
    k'.depth.trans k.depth.symm, fun disciplined rest run => ⟨run.releaseAll_violations disciplined, ?_⟩⟩
  rw [← hrefs] at run
  exact run.releaseAll_violations disciplined

namespace Stock

/-- Only one block of 16 bytes is parked, and no short is interned. -/
def narrowConfig : Config := { pool := { sizeClasses := [16], maxPerClass := some 1 }, shortRange := ⟨0, 0⟩ }

/-- A short, and a tuple that owns another one. -/
def owning : List (Request Name) := [.short 300, .short 301, .tuple [⟨4⟩]]

end Stock

/-- A short, a tuple that owns another short and a reference to nothing, given back in two orders:
the one short is parked or the other, and the vacant slots are the tuple's and the one that is left.
Without the reference to nothing neither order counts a violation. -/
theorem release_order_irrelevant_parked :
    (∃ h g g' : Heap Stock.Name, Reached (Stock.host 8) (.ofConfig Stock.narrowConfig) h ∧
      (Stock.host 8).performAll ([⟨3⟩, ⟨5⟩, ⟨9⟩].map .release) h = .ok g ∧
      (Stock.host 8).performAll ([⟨9⟩, ⟨5⟩, ⟨3⟩].map .release) h = .ok g' ∧
      g.store.vacant = [⟨4⟩, ⟨5⟩] ∧ g'.store.vacant = [⟨3⟩, ⟨5⟩] ∧ (∀ r, g'.object? r = g.object? r) ∧
      g'.store.parkedOf 16 = g.store.parkedOf 16 ∧ g'.ledger = g.ledger) ∧
    ∃ h g g' : Heap Stock.Name, Run (Stock.host 8) 0 (.ofConfig Stock.narrowConfig) 0 h {⟨3⟩, ⟨5⟩} ∧
      (Stock.host 8).performAll ([⟨3⟩, ⟨5⟩].map .release) h = .ok g ∧
      (Stock.host 8).performAll ([⟨5⟩, ⟨3⟩].map .release) h = .ok g' ∧ g.violations = 0 ∧ g'.violations = 0 := by
  constructor
  · have hrun : (((Stock.host 8).performAll Stock.owning (.ofConfig Stock.narrowConfig)).toOption).map
        (fun h => (((Stock.host 8).performAll ([⟨3⟩, ⟨5⟩, ⟨9⟩].map .release) h).toOption.map (·.store.vacant),
          ((Stock.host 8).performAll ([⟨9⟩, ⟨5⟩, ⟨3⟩].map .release) h).toOption.map (·.store.vacant))) =
            some (some [⟨4⟩, ⟨5⟩], some [⟨3⟩, ⟨5⟩]) := by decide +kernel
    obtain ⟨h, hp, hseen⟩ := Reached.of_performAll _ hrun
    obtain ⟨hv, hv'⟩ := Prod.mk.inj hseen
    have reached : Reached (Stock.host 8) (.ofConfig Stock.narrowConfig) h := .performAll .start hp
    obtain ⟨g, g', done, done', objects, parked, -, ledger, -⟩ :=
      release_order_irrelevant reached (show [⟨3⟩, ⟨5⟩, ⟨9⟩].Perm [⟨9⟩, ⟨5⟩, ⟨3⟩] by decide)
    rw [done] at hv
    rw [done'] at hv'
    exact ⟨h, g, g', reached, done, done', Option.some.inj hv, Option.some.inj hv', objects, parked 16, ledger⟩
  · have hplay : ((Stock.host 8).play 0 Stock.owning (.ofConfig Stock.narrowConfig) 0).map
        (fun p => (p.2, p.1.violations)) = some ({⟨3⟩, ⟨5⟩}, 0) := by decide +kernel
    obtain ⟨h, run, hv⟩ := Run.of_play Heap.violations (Multiset.zero_le _) hplay
    obtain ⟨g, g', done, done', -, -, -, -, -, -, -, -, balanced⟩ :=
      release_order_irrelevant run.reached (show [⟨3⟩, ⟨5⟩].Perm [⟨5⟩, ⟨3⟩] by decide)
    obtain ⟨none, none'⟩ := balanced (Stock.host_disciplined 8) 0 run
    exact ⟨h, g, g', run, done, done', none.trans hv, none'.trans hv⟩

end CountedHeap
