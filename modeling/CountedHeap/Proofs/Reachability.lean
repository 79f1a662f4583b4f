/-
# No leak and no cycle

An object owns its items. In a balanced heap a rank falls along this relation, so
it has no cycle; and upwards from a live object, each owner has a higher rank, so
the way up ends, and it ends at a reference that is held or at an immortal object,
which owns nothing. So what is live is what can be reached.

Key definition: `Heap.Owns`.
Key theorems: `Heap.Balanced.live_iff`, `live_iff_reachable`.
-/
import Mathlib.Logic.Relation
import CountedHeap.Proofs.Balance

namespace CountedHeap

variable {κ : Role → Type}

namespace Heap

/-- The live object `r` owns a reference to `a`. -/
def Owns (h : Heap κ) (r a : Ref) : Prop := ∃ o, h.object? r = some o ∧ a ∈ o.payload.children

variable {h : Heap κ} {held : Multiset Ref} {r : Ref}

/-- The ranks of live objects have a bound, as there are finitely many slots. -/
theorem rank_bounded (h : Heap κ) (rank : Ref → Nat) : ∃ n, ∀ r o, h.object? r = some o → rank r ≤ n := by
  refine ⟨(((List.range h.store.slots.size).map Ref.mk).map rank).sum, fun r o live => ?_⟩
  obtain ⟨hlt, -⟩ := Array.getElem?_eq_some_iff.mp (slot_of_object? live)
  have hmem : r ∈ (List.range h.store.slots.size).map Ref.mk := List.mem_map.mpr ⟨r.index, List.mem_range.mpr hlt, rfl⟩
  exact List.le_sum_of_mem (List.mem_map_of_mem hmem)

namespace Balanced

/-- No object owns itself, through others or not. -/
theorem acyclic (b : h.Balanced held) (r : Ref) : ¬ Relation.TransGen h.Owns r r := by
  obtain ⟨rank, hrank⟩ := b.ranked
  have hlt : ∀ {a c}, Relation.TransGen h.Owns a c → rank c < rank a := by
    intro a c path
    induction path with
    | single owns =>
      obtain ⟨o, live, ha⟩ := owns
      exact hrank _ o live _ ha
    | tail _ owns ih =>
      obtain ⟨o, live, ha⟩ := owns
      exact Nat.lt_trans (hrank _ o live _ ha) ih
  exact fun path => Nat.lt_irrefl _ (hlt path)

/-- A live object is immortal, or held, or owned by one that is not immortal. -/
theorem live_cases (b : h.Balanced held) {o : Object} (live : h.object? r = some o) :
    o.immortal = true ∨ r ∈ held ∨ ∃ a o', h.object? a = some o' ∧ o'.immortal = false ∧ r ∈ o'.payload.children := by
  have he := b.exact r
  have hc := (b.wellFormed.objects r o live).counted
  rw [live] at he
  by_cases hi : o.immortal = true
  · exact Or.inl hi
  by_cases hh : r ∈ held
  · exact Or.inr (Or.inl hh)
  -- the count is not zero, so some object mentions it
  rw [Multiset.count_eq_zero.mpr hh] at he
  simp only [Object.count?, Object.pin?, if_neg hi] at he
  obtain ⟨a, o', live', ha⟩ := exists_of_mentions_pos (h := h) (a := r) (by omega)
  refine Or.inr (Or.inr ⟨a, o', live', ?_, ha⟩)
  by_contra him
  rw [Bool.not_eq_false] at him
  rw [b.immortal_children live' him] at ha
  cases ha

/-- What is reached from a live object is live. -/
theorem live_of_path (b : h.Balanced held) {a : Ref} (live : ∃ o, h.object? a = some o)
    (path : Relation.ReflTransGen h.Owns a r) : ∃ o, h.object? r = some o := by
  induction path with
  | refl => exact live
  | tail _ owns _ =>
    obtain ⟨o, live, ha⟩ := owns
    exact b.item_live live ha

/-- A live object that is not immortal is reached from one that is held. -/
theorem reached_of_live (b : h.Balanced held) {o : Object} (live : h.object? r = some o)
    (mortal : o.immortal = false) : ∃ a ∈ held, Relation.ReflTransGen h.Owns a r := by
  obtain ⟨rank, hrank⟩ := b.ranked
  obtain ⟨n, hn⟩ := h.rank_bounded rank
  -- up from `r`, by induction on how far its rank is below the bound
  induction hk : n - rank r using Nat.strongRecOn generalizing r o with
  | _ k ih =>
    rcases b.live_cases live with him | hh | ⟨a, o', live', mortal', ha⟩
    · rw [mortal] at him
      cases him
    · exact ⟨r, hh, .refl⟩
    · have hlt := hrank a o' live' r ha
      have hle := hn a o' live'
      obtain ⟨root, hroot, path⟩ := ih (n - rank a) (by omega) live' mortal' rfl
      exact ⟨root, hroot, path.tail ⟨o', live', ha⟩⟩

theorem live_iff (b : h.Balanced held) (r : Ref) :
    (∃ o, h.object? r = some o) ↔
      (∃ o, h.object? r = some o ∧ o.immortal = true) ∨ ∃ a ∈ held, Relation.ReflTransGen h.Owns a r := by
  constructor
  · rintro ⟨o, live⟩
    by_cases hi : o.immortal = true
    · exact Or.inl ⟨o, live, hi⟩
    · exact Or.inr (b.reached_of_live live (Bool.not_eq_true _ ▸ hi))
  · rintro (⟨o, live, -⟩ | ⟨a, ha, path⟩)
    · exact ⟨o, live⟩
    · exact b.live_of_path (b.held_live ha) path

/-- If nothing is held, all that is live is immortal and has one reference. -/
theorem immortal_of_none (b : h.Balanced 0) {o : Object} (live : h.object? r = some o) :
    o.immortal = true ∧ o.refcount = 1 := by
  have him : ∀ {r o}, h.object? r = some o → o.immortal = true := by
    intro r o live
    by_contra hi
    obtain ⟨a, ha, -⟩ := b.reached_of_live live (Bool.not_eq_true _ ▸ hi)
    exact absurd ha (Multiset.notMem_zero a)
  have hm : h.store.mentions r = 0 := by
    by_contra hne
    obtain ⟨a, o', live', ha⟩ := exists_of_mentions_pos (Nat.pos_of_ne_zero hne)
    rw [b.immortal_children live' (him live')] at ha
    cases ha
  refine ⟨him live, ?_⟩
  have he := b.exact r
  rw [live, hm, Multiset.count_zero] at he
  simpa [Object.count?, Object.pin?, him live] using he

/-- If nothing is held, the live objects are the interned ones as they were at the start. -/
theorem objects_of_none (b : h.Balanced 0) (r : Ref) :
    h.object? r = (h.interned.slots[r.index]?).bind Slot.object? := by
  by_cases hr : r.index < h.interned.count
  · obtain ⟨o, n, h₀, live⟩ := b.wellFormed.interned r hr
    obtain ⟨o', ho', horig⟩ := Interned.slots_original _ h₀
    cases ho'
    have hn : n = o.refcount := (b.immortal_of_none live).2.trans horig.refcount.symm
    rw [live, h₀, hn]
    rfl
  · rw [Array.getElem?_eq_none (by rw [Interned.slots_size]; omega)]
    cases ho : h.object? r with
    | none => rfl
    | some o => exact absurd (b.wellFormed.immortal r o ho (b.immortal_of_none ho).1) hr

end Balanced

end Heap

/-- **No leak and no cycle.** In a heap that a run has reached, no object owns itself
through others. The live objects are the immortal ones and those reached from a
reference that is held; and once nothing is held, the live objects are those the
heap began with, immortal and each with its one reference. -/
theorem live_iff_reachable {host : Host κ} (disciplined : host.Disciplined) {c : Config} {h : Heap κ}
    {held : Multiset Ref} (run : Run host 0 (.ofConfig c) 0 h held) :
    (∀ r, ¬ Relation.TransGen h.Owns r r) ∧
    (∀ r, (∃ o, h.object? r = some o) ↔
      (∃ o, h.object? r = some o ∧ o.immortal = true) ∨ ∃ a ∈ held, Relation.ReflTransGen h.Owns a r) ∧
    (held = 0 → (∀ r, h.object? r = (Heap.ofConfig c : Heap κ).object? r) ∧
      ∀ r o, h.object? r = some o → r.index < h.interned.count ∧ o.immortal = true ∧ o.refcount = 1) := by
  have b := run.balanced disciplined (Heap.balanced_ofConfig c)
  have hi : h.interned = ⟨c.internedRange⟩ :=
    run.induct (P := fun h => h.interned = ⟨c.internedRange⟩) disciplined (Heap.balanced_ofConfig c) rfl
      fun d _ _ ih => d.interned.trans ih
  refine ⟨b.acyclic, b.live_iff, fun hz => ?_⟩
  subst hz
  refine ⟨fun r => ?_, fun r o live => ⟨?_, b.immortal_of_none live⟩⟩
  · rw [b.objects_of_none r, hi]
    rfl
  · exact b.wellFormed.immortal r o live (b.immortal_of_none live).1

/-- A pair keeps what it owns alive, and both are gone when the pair is given back. -/
theorem live_iff_reachable_paired :
    (∃ h : Heap Stock.Name, Run (Stock.host 8) 0 (.ofConfig Stock.sampleConfig) 0 h {⟨4⟩} ∧
      (∀ r, ¬ Relation.TransGen h.Owns r r) ∧ h.Owns ⟨4⟩ ⟨3⟩ ∧
      ((∃ o, h.object? ⟨3⟩ = some o) ↔ (∃ o, h.object? ⟨3⟩ = some o ∧ o.immortal = true) ∨
        ∃ a ∈ ({⟨4⟩} : Multiset Ref), Relation.ReflTransGen h.Owns a ⟨3⟩)) ∧
    ∃ h : Heap Stock.Name, Run (Stock.host 8) 0 (.ofConfig Stock.sampleConfig) 0 h 0 ∧
      ∀ r, h.object? r = (Heap.ofConfig Stock.sampleConfig : Heap Stock.Name).object? r := by
  constructor
  · have hplay : ((Stock.host 8).play 0 (Stock.sample ++ [.release ⟨3⟩]) (.ofConfig Stock.sampleConfig) 0).map
        (fun p => (p.2, (p.1.object? ⟨4⟩).map Object.payload)) = some ({⟨4⟩}, some (.tuple [⟨3⟩, ⟨3⟩])) := by
      decide +kernel
    obtain ⟨h, run, hp⟩ := Run.of_play (fun h => (h.object? ⟨4⟩).map Object.payload) (Multiset.zero_le _) hplay
    obtain ⟨o, live, hp⟩ := Option.map_eq_some_iff.mp hp
    obtain ⟨acyclic, reachable, -⟩ := live_iff_reachable (Stock.host_disciplined 8) run
    exact ⟨h, run, acyclic, ⟨o, live, by rw [hp]; exact List.mem_cons_self⟩, reachable ⟨3⟩⟩
  · have hplay : ((Stock.host 8).play 0 (Stock.sample ++ [.release ⟨3⟩, .release ⟨4⟩])
        (.ofConfig Stock.sampleConfig) 0).map (fun p => (p.2, p.1.store.liveCount)) = some (0, 3) := by decide +kernel
    obtain ⟨h, run, -⟩ := Run.of_play (fun h => h.store.liveCount) (Multiset.zero_le _) hplay
    exact ⟨h, run, ((live_iff_reachable (Stock.host_disciplined 8) run).2.2 rfl).1⟩

end CountedHeap
