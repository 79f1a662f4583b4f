/-
# Counting against standard limits changes nothing

The standard limits bound the depth of recursion only, so a heap with these limits
does without counting: its tracker is unmetered. A metered tracker with the standard
limits refuses the same levels and, like the unmetered one, no block. From the start
it counts the blocks and bytes that the ledger counts, and it does so by the same
steps, so that its counts are those of the ledger at every moment. Nothing else tells
the two heaps apart.

Key definition: `Heap.metered`.
Key theorems: `Heap.metered_likeness`, `metering_invisible`.
-/
import CountedHeap.Proofs.Failure
import CountedHeap.Proofs.Likeness
import CountedHeap.Snapshot

namespace CountedHeap

variable {κ : Role → Type}

namespace Heap

/-- The heap with a tracker that counts against the standard limits what the ledger counts. -/
def metered (h : Heap κ) : Heap κ :=
  h.withTracker (.metered .standard h.ledger.counts.liveBlocks h.ledger.counts.liveBytes)

/-- `h'` counts against the standard limits where `h` does not count. -/
def Metered (h h' : Heap κ) : Prop := h.ledger.tracker = .unmetered ∧ h' = h.metered

/-- **No request sees whether blocks are counted against the standard limits.** -/
theorem metered_likeness : Likeness (Metered (κ := κ)) where
  same := by
    rintro h _ ⟨-, rfl⟩
    exact ⟨_, h.tracer, rfl⟩
  write store types depth violations := by
    rintro ⟨ht, rfl⟩
    exact ⟨ht, rfl⟩
  emit e := by
    rintro ⟨ht, rfl⟩
    exact ⟨ht, rfl⟩
  free {h _} size := by
    rintro ⟨ht, rfl⟩
    refine ⟨?_, rfl⟩
    show h.ledger.tracker.free size = .unmetered
    rw [ht]
    rfl
  charge {h _} size := by
    rintro ⟨ht, rfl⟩
    have hl : h.ledger.allocate size = .ok ⟨.unmetered, h.ledger.counts.allocate size⟩ := by
      unfold Ledger.allocate
      rw [ht]
      rfl
    rw [hl]
    exact ⟨rfl, rfl⟩
  level {h _} := by
    rintro ⟨ht, rfl⟩
    rw [ht]
    rfl

end Heap

/-- Another sink is installed. -/
def Heap.NewSink (replace : Heap κ → Heap κ) : Prop := ∃ sink, replace = (withSink · sink)

/-- **Counting against the standard limits changes nothing.** The same requests are made of a heap with the standard
limits and of the same heap with a tracker that counts against them from the start. At every moment the second is
the first with the ledger's counts in its tracker, the next request has the same answer, error or fault in both, and
their snapshots differ only in that the second shows the counts. -/
theorem metering_invisible (host : Host κ) {c : Config} (standard : c.limits = Limits.standard) {h h' : Heap κ}
    (both : Abreast host Heap.NewSink (.ofConfig c) ((Heap.ofConfig c).withTracker (.fresh .standard)) h h') :
    h' = h.metered ∧
    (∀ r, host.perform r h' = (host.perform r h).map fun p => (p.1, p.2.metered)) ∧
    h.snapshot.trackerAllocations = none ∧ h.snapshot.trackerMemory = none ∧
    h'.snapshot =
      { h.snapshot with
        trackerAllocations := some h'.ledger.counts.liveBlocks
        trackerMemory := some h'.ledger.counts.liveBytes } := by
  have first : Heap.Metered (.ofConfig c) ((Heap.ofConfig c : Heap κ).withTracker (.fresh .standard)) :=
    ⟨if_pos standard, rfl⟩
  have alike : Heap.Metered h h' := by
    refine both.alike Heap.metered_likeness ?_ first
    rintro _ h _ ⟨sink, rfl⟩ ⟨ht, rfl⟩
    exact ⟨ht, rfl⟩
  obtain ⟨ht, rfl⟩ := alike
  refine ⟨rfl, fun r => ?_, ?_, ?_, rfl⟩
  · unfold Host.perform
    rcases (Heap.metered_likeness.perform host host.frames r h _ ⟨ht, rfl⟩).cases with
      ⟨p, q, hp, hq, hpq⟩ | ⟨f, hp, hq⟩
    · rw [hp, hq]
      exact congrArg Except.ok (Prod.ext hpq.1 hpq.2.2)
    · rw [hp, hq]
      rfl
  · show h.ledger.tracker.allocationCount = none
    rw [ht]
    rfl
  · show h.ledger.tracker.memoryBytes = none
    rw [ht]
    rfl

namespace Stock

/-- One of two shorts is given back and its block is parked, and 200 levels are entered. -/
def descent : List (Request Name) := [.short 300, .short 301, .release ⟨3⟩] ++ List.replicate 200 .enterRecursion

end Stock

/-- At the bottom of a descent both heaps refuse one more level in the same words; the one
counts two blocks of 16 bytes, and the other counts nothing. -/
theorem metering_invisible_deep : ∃ h h' g : Heap Stock.Name,
    Abreast (Stock.host 8) Heap.NewSink (.ofConfig Stock.sampleConfig)
      ((Heap.ofConfig Stock.sampleConfig).withTracker (.fresh .standard)) h h' ∧ h' = h.metered ∧
    (Stock.host 8).perform .enterRecursion h = .ok (.error (.exhausted (.recursion 200 201)), g) ∧
    (Stock.host 8).perform .enterRecursion h' = .ok (.error (.exhausted (.recursion 200 201)), g.metered) ∧
    h.snapshot.trackerAllocations = none ∧ h'.snapshot.trackerAllocations = some 2 ∧
    h'.snapshot.trackerMemory = some 32 := by
  have hrun : (((Stock.host 8).performAll Stock.descent (.ofConfig Stock.sampleConfig)).toOption).map
      (fun h => (Stock.next? .enterRecursion h, h.ledger.counts.liveBlocks, h.ledger.counts.liveBytes)) =
        some (some (.error (.exhausted (.recursion 200 201))), 2, 32) := by decide +kernel
  have hrun' : (((Stock.host 8).performAll Stock.descent
      ((Heap.ofConfig Stock.sampleConfig).withTracker (.fresh .standard))).toOption).map Heap.depth = some 200 := by
    decide +kernel
  obtain ⟨h, hp, hseen⟩ := Reached.of_performAll _ hrun
  obtain ⟨h', hp', -⟩ := Reached.of_performAll _ hrun'
  obtain ⟨hnext, hcounts⟩ := Prod.mk.inj hseen
  obtain ⟨g, hg⟩ := exists_heap_of_answer hnext
  have both : Abreast (Stock.host 8) Heap.NewSink _ _ h h' := .performAll .start hp hp'
  obtain ⟨same, next, none, -, shows⟩ := metering_invisible (Stock.host 8) rfl both
  refine ⟨h, h', g, both, same, hg, ?_, none, ?_, ?_⟩
  · rw [next, hg]
    rfl
  · rw [shows, same]
    exact congrArg some (Prod.mk.inj hcounts).1
  · rw [shows, same]
    exact congrArg some (Prod.mk.inj hcounts).2

end CountedHeap
