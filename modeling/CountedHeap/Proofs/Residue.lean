/-
# `fib` leaves nothing behind

`fib` gives back whatever it has made on every path: when a block is refused, when a
level of recursion is, when a sum does not fit, and when its argument is no short in the
first place. That is part of what is shown of its code (`perform_fib`), where every
request may fail.

What is held determines what is live. So a call that fails has left the same objects as
a release of the argument would have, and one that succeeds the same and its result.

Key theorems: `Heap.IsFresh.object?_release`, `fib_leaves_nothing`.
-/
import CountedHeap.Proofs.Fibonacci
import CountedHeap.Proofs.Remains

namespace CountedHeap

variable {κ : Role → Type}

namespace Heap

variable {h g : Heap κ} {rest : Multiset Ref} {a r : Ref} {v : Int32}

/-- A fresh short is given back: an interned one has a reference less, another is gone, and nothing
else changes. -/
theorem IsFresh.object?_release (bal : h.Balanced ({r} + rest)) (fresh : h.IsFresh r v) :
    (∀ a, a ≠ r → (h.release r).object? a = h.object? a) ∧
      ((∃ o, (h.release r).object? r = some o ∧ o.immortal = true ∧ o.payload = .short v ∧
          h.object? r = some { o with refcount := o.refcount + 1 }) ∨
        (h.release r).object? r = Option.none ∧
          ∃ o, h.object? r = some o ∧ o.immortal = false ∧ o.payload = .short v ∧ o.refcount = 1) := by
  obtain ⟨o, live, payload, alone⟩ := fresh
  rw [release_of_fits (tryRelease_deals bal).2]
  unfold tryRelease
  by_cases him : o.immortal = true
  · -- whoever holds it is not the only one: the heap does too
    have several : 1 < o.refcount := by
      have hexact := bal.exact r
      rw [live, Multiset.count_add, Multiset.count_singleton_self] at hexact
      simp only [Object.count?, Object.pin?, him, if_true] at hexact
      omega
    have kept : h.verdict r = .kept o := by
      unfold verdict
      rw [slot_of_object? live]
      simp only
      rw [if_neg (by omega), if_pos several]
    have w := Store.writes_put (slot_of_object? live) (.live { o with refcount := o.refcount - 1 })
    rw [cascade_kept kept, cascade]
    refine ⟨fun a ha => w.object?_other ha, Or.inl ⟨_, w.object?_self, him, payload, ?_⟩⟩
    have hc : o.refcount - 1 + 1 = o.refcount := by omega
    show h.object? r = some { o with refcount := o.refcount - 1 + 1 }
    rw [hc, live]
  · have mortal : o.immortal = false := Bool.not_eq_true _ ▸ him
    have dies : h.verdict r = .dies o := by
      unfold verdict
      rw [slot_of_object? live]
      simp only [alone mortal, him]
      rfl
    rw [cascade_dies dies, payload]
    show (∀ a, a ≠ r → ((h.bury r o).cascade _ []).1.object? a = _) ∧ _
    rw [cascade]
    refine ⟨fun a ha => ?_, Or.inr ⟨?_, o, live, mortal, payload, alone mortal⟩⟩
    · rw [object?_bury live, if_neg ha]
    · rw [show (Payload.short v).children.reverse ++ [] = [] from rfl, cascade, object?_bury live, if_pos rfl]

end Heap

/-- Two lines of work have left everything that a heap is set up with. -/
theorem Heap.Turns.common {h g g' : Heap κ} {given made made' : Multiset Ref} (t : h.Turns given g made)
    (t' : h.Turns given g' made') :
    g.depth = g'.depth ∧ g.violations = g'.violations ∧ g.types = g'.types ∧ g.interned = g'.interned ∧
      g.store.classLimit = g'.store.classLimit ∧
      g.store.classes.map SizeClass.size = g'.store.classes.map SizeClass.size ∧
      g.ledger.tracker.maxDepth = g'.ledger.tracker.maxDepth := by
  obtain ⟨interned, limit, sizes⟩ := t.deals.layout
  obtain ⟨interned', limit', sizes'⟩ := t'.deals.layout
  exact ⟨t.framed.depth.trans t'.framed.depth.symm, t.deals.violations.trans t'.deals.violations.symm,
    t.framed.types.trans t'.framed.types.symm, interned.trans interned'.symm, limit.trans limit'.symm,
    sizes.trans sizes'.symm, t.framed.maxDepth.trans t'.framed.maxDepth.symm⟩

/-- **`fib` leaves nothing behind.** In any state of a balanced run, with any budgets, let `fib` be called on a
built-in value that is held, and let `h'` be what a release of it alone would leave. The only fault is that of a
native stack too small for the call. If it fails, the live objects with their counts and contents are those of `h'`;
if it succeeds they are the same but for the result, an interned short with one reference more or a new one. Depth,
violations and what the heap is set up with are as they were. -/
theorem fib_leaves_nothing {host : Host κ} (disciplined : host.Disciplined) {c : Config} {h : Heap κ}
    {held : Multiset Ref} (run : Run host 0 (.ofConfig c) 0 h held) {a : Ref} (ha : a ∈ held) {o : Object}
    (live : h.object? a = some o) (builtin : o.type.isBuiltin = true) :
    ∃ h', host.perform (.release a) h = .ok ((), h') ∧
      (∀ f, host.perform (.fib a) h = .error f →
        f = .stackOverflow ∧ (host.frames = 0 ∨ ∃ n, h.IsShort a n ∧ host.frames < h.setting.fibCalls n.toInt)) ∧
      ∀ x g, host.perform (.fib a) h = .ok (x, g) →
        g.depth = h.depth ∧ g.violations = h.violations ∧
        (match x with
        | .error _ => ∀ r, g.object? r = h'.object? r
        | .ok result => (∀ r, r ≠ result → g.object? r = h'.object? r) ∧ ∃ v,
          (∃ o, h'.object? result = some o ∧ o.immortal = true ∧ o.payload = .short v ∧
            g.object? result = some { o with refcount := o.refcount + 1 }) ∨
          h'.object? result = none ∧
            ∃ o, g.object? result = some o ∧ o.immortal = false ∧ o.payload = .short v ∧ o.refcount = 1) ∧
        g.depth = h'.depth ∧ g.violations = h'.violations ∧ g.types = h'.types ∧ g.interned = h'.interned ∧
        g.store.classLimit = h'.store.classLimit ∧
        g.store.classes.map SizeClass.size = h'.store.classes.map SizeClass.size ∧
        g.ledger.tracker.maxDepth = h'.ledger.tracker.maxDepth := by
  obtain ⟨rest, rfl⟩ := Multiset.exists_cons_of_mem ha
  have bal := run.balanced disciplined (Heap.balanced_ofConfig c)
  rw [← Multiset.singleton_add] at bal
  have released := Heap.Turns.release bal
  have fib := perform_fib host host.frames bal live builtin
  have performed : host.perform (.release a) h = .ok ((), h.release a) := by
    obtain ⟨n, inner, hstep⟩ := host.perform_eq_step
    rw [hstep]
    rfl
  refine ⟨h.release a, performed, fun f failed => fib.of_error failed, fun x g done => ?_⟩
  have brings := fib.of_ok done
  cases x with
  | error e =>
    have turns : h.Turns {a} g 0 := brings.1
    exact ⟨turns.framed.depth, turns.deals.violations, released.deals.objects_determined turns.deals bal,
      turns.common released⟩
  | ok result =>
    obtain ⟨turns, v, -, fresh⟩ := brings
    have bal' := turns.deals.balanced bal
    -- with the result given back too, nothing is held that a release would not leave
    have same := (turns.trans (Heap.Turns.release bal')).deals.objects_determined released.deals bal
    obtain ⟨others, self⟩ := fresh.object?_release bal'
    refine ⟨turns.framed.depth, turns.deals.violations, ⟨fun r hr => ?_, v, ?_⟩, turns.common released⟩
    · rw [same r, others r hr]
    · rw [same result]
      exact self

namespace Stock

/-- There may be `n` blocks. -/
def rationedConfig (n : Nat) : Config :=
  { sampleConfig with limits := { maxAllocations := some n, maxDepth := some 9 } }

/-- The argument of a call, and something else. -/
def asking : List (Request Name) := [.short 4, .tuple []]

/-- Whether the argument is built in, and the answer to the call. -/
def asked (h : Heap Name) : Option Bool × Option (Except RunError Ref) :=
  ((h.object? ⟨3⟩).map (·.type.isBuiltin), next? (.fib ⟨3⟩) h)

end Stock

/-- With six blocks the call is refused one in the middle of its work, with seven it comes to a new
short, and that is all that is left of it. -/
theorem fib_leaves_nothing_rationed :
    (∃ h g h' : Heap Stock.Name, Run (Stock.host 8) 0 (.ofConfig (Stock.rationedConfig 6)) 0 h {⟨3⟩, ⟨4⟩} ∧
      (Stock.host 8).perform (.fib ⟨3⟩) h = .ok (.error (.exhausted (.allocations 6 7)), g) ∧
      (Stock.host 8).perform (.release ⟨3⟩) h = .ok ((), h') ∧ g.depth = h.depth ∧ g.violations = h.violations ∧
      ∀ r, g.object? r = h'.object? r) ∧
    ∃ h g h' : Heap Stock.Name, Run (Stock.host 8) 0 (.ofConfig (Stock.rationedConfig 7)) 0 h {⟨3⟩, ⟨4⟩} ∧
      (Stock.host 8).perform (.fib ⟨3⟩) h = .ok (.ok ⟨7⟩, g) ∧
      (Stock.host 8).perform (.release ⟨3⟩) h = .ok ((), h') ∧ g.depth = h.depth ∧ g.violations = h.violations ∧
      ∀ r, r ≠ ⟨7⟩ → g.object? r = h'.object? r := by
  constructor
  · have hplay : ((Stock.host 8).play 0 Stock.asking (.ofConfig (Stock.rationedConfig 6)) 0).map
        (fun p => (p.2, Stock.asked p.1)) =
          some ({⟨3⟩, ⟨4⟩}, some true, some (.error (.exhausted (.allocations 6 7)))) := by decide +kernel
    obtain ⟨h, run, seen⟩ := Run.of_play Stock.asked (Multiset.zero_le _) hplay
    obtain ⟨argument, answer⟩ := Prod.mk.inj seen
    obtain ⟨o, live, builtin⟩ := Option.map_eq_some_iff.mp argument
    obtain ⟨g, done⟩ := exists_heap_of_answer answer
    obtain ⟨h', released, -, returns⟩ := fib_leaves_nothing (Stock.host_disciplined 8) run (by simp) live builtin
    obtain ⟨depth, violations, same, -⟩ := returns _ g done
    exact ⟨h, g, h', run, done, released, depth, violations, same⟩
  · have hplay : ((Stock.host 8).play 0 Stock.asking (.ofConfig (Stock.rationedConfig 7)) 0).map
        (fun p => (p.2, Stock.asked p.1)) = some ({⟨3⟩, ⟨4⟩}, some true, some (.ok ⟨7⟩)) := by decide +kernel
    obtain ⟨h, run, seen⟩ := Run.of_play Stock.asked (Multiset.zero_le _) hplay
    obtain ⟨argument, answer⟩ := Prod.mk.inj seen
    obtain ⟨o, live, builtin⟩ := Option.map_eq_some_iff.mp argument
    obtain ⟨g, done⟩ := exists_heap_of_answer answer
    obtain ⟨h', released, -, returns⟩ := fib_leaves_nothing (Stock.host_disciplined 8) run (by simp) live builtin
    obtain ⟨depth, violations, ⟨same, -⟩, -⟩ := returns _ g done
    exact ⟨h, g, h', run, done, released, depth, violations, same⟩

end CountedHeap
