/-
# Balanced runs

A user of a heap holds references and makes requests with them: what a request
consumes is no longer held, what its answer brings is held from then on. `Run`
puts such requests in a row. They may fail, and the user may also forget a
reference, which is then held for ever, as are those that the handlers called in
a request forget; but none is used that is not held.

In every heap such a run reaches, every reference is counted exactly once, so
that nothing is ever read, shared or given back that is not there.

Key definitions: `Run`, `Host.play`.
Key theorems: `Run.balanced`, `refcount_exact`.
-/
import CountedHeap.Proofs.Requests

namespace CountedHeap

variable {κ : Role → Type}

/-- From a heap and what is held to what they become by requests that use only
what is held. The references `kept` stay held all the time. -/
inductive Run (host : Host κ) (kept : Multiset Ref) : Heap κ → Multiset Ref → Heap κ → Multiset Ref → Prop
  | start {h : Heap κ} {held : Multiset Ref} (within : kept ≤ held) : Run host kept h held h held
  | perform {h g g' : Heap κ} {held rest : Multiset Ref} (r : Request κ) {x : r.Answer}
      (run : Run host kept h held g (r.consumes + rest)) (borrowed : ∀ a ∈ r.borrows, a ∈ rest)
      (within : kept ≤ rest) (done : host.perform r g = .ok (x, g')) :
      Run host kept h held g' (r.makes x + host.forgets r g + rest)
  | withTracker {h g : Heap κ} {held held' : Multiset Ref} (t : Tracker) (run : Run host kept h held g held') :
      Run host kept h held (g.withTracker t) held'
  | withSink {h g : Heap κ} {held held' : Multiset Ref} (sink : Sink) (run : Run host kept h held g held') :
      Run host kept h held (g.withSink sink) held'

namespace Host

/-- The heap and the references held after some requests, unless one of them uses
a reference that is not held or that is to be kept, or stops at a fault. -/
def play (host : Host κ) (kept : Multiset Ref) :
    List (Request κ) → Heap κ → Multiset Ref → Option (Heap κ × Multiset Ref)
  | [], h, held => some (h, held)
  | r :: requests, h, held =>
    if r.consumes + kept ≤ held ∧ ∀ a ∈ r.borrows, a ∈ held - r.consumes then
      match host.perform r h with
      | .ok (x, g) => host.play kept requests g (r.makes x + host.forgets r h + (held - r.consumes))
      | .error _ => none
    else none

end Host

namespace Run

variable {host : Host κ} {kept : Multiset Ref} {h g : Heap κ} {held held' : Multiset Ref}

/-- One run after the other. -/
theorem trans {h' : Heap κ} {held'' : Multiset Ref} (first : Run host kept h held g held')
    (last : Run host kept g held' h' held'') : Run host kept h held h' held'' := by
  induction last with
  | start _ => exact first
  | perform r _ borrowed within done ih => exact .perform r (ih first) borrowed within done
  | withTracker t _ ih => exact .withTracker t (ih first)
  | withSink sink _ ih => exact .withSink sink (ih first)

/-- Requests that are played are a run. -/
theorem play : ∀ {requests : List (Request κ)} {h : Heap κ} {held : Multiset Ref}, kept ≤ held →
    host.play kept requests h held = some (g, held') → Run host kept h held g held'
  | [], h, held, within, hp => by
    cases hp
    exact .start within
  | r :: requests, h, held, within, hp => by
    rw [Host.play] at hp
    split at hp
    · rename_i hr
      obtain ⟨hle, borrowed⟩ := hr
      split at hp
      · rename_i x g done
        obtain ⟨more, rfl⟩ := Multiset.le_iff_exists_add.mp hle
        have he : r.consumes + kept + more - r.consumes = kept + more := by
          rw [add_assoc, add_comm, Multiset.add_sub_cancel_right]
        rw [he] at borrowed hp
        have first : Run host kept h (r.consumes + kept + more) h (r.consumes + (kept + more)) := by
          rw [← add_assoc]
          exact .start within
        have hkept : kept ≤ kept + more := Multiset.le_add_right _ _
        exact (Run.perform r first borrowed hkept done).trans (play (le_trans hkept (Multiset.le_add_left _ _)) hp)
      · cases hp
    · cases hp

/-- A run that is played, with what is seen of its last heap. -/
theorem of_play {α : Type} {requests : List (Request κ)} (see : Heap κ → α) {a : α} (within : kept ≤ held)
    (hp : (host.play kept requests h held).map (fun p => (p.2, see p.1)) = some (held', a)) :
    ∃ g, Run host kept h held g held' ∧ see g = a := by
  obtain ⟨⟨g, last⟩, hplay, he⟩ := Option.map_eq_some_iff.mp hp
  cases he
  exact ⟨g, play within hplay, rfl⟩

/-- What is to be kept is held in the end. -/
theorem kept_last (run : Run host kept h held g held') : kept ≤ held' := by
  induction run with
  | start within => exact within
  | perform _ _ _ within _ _ => exact le_trans within (Multiset.le_add_left _ _)
  | withTracker _ _ ih => exact ih
  | withSink _ _ ih => exact ih

/-- **A run keeps the books.** -/
theorem balanced (disciplined : host.Disciplined) (run : Run host kept h held g held') (b : h.Balanced held) :
    g.Balanced held' := by
  induction run with
  | start _ => exact b
  | perform r _ borrowed _ done ih =>
    exact ((perform_balances disciplined host.frames r _ _ (ih b) borrowed).of_ok done).balanced (ih b)
  | withTracker t _ ih => exact (Deals.withTracker t).unchanged (ih b)
  | withSink sink _ ih => exact (Deals.withSink sink).unchanged (ih b)

/-- What dealing keeps while `kept` is held beside it, a run keeps. -/
theorem induct {P : Heap κ → Prop} (disciplined : host.Disciplined) (run : Run host kept h held g held')
    (b : h.Balanced held) (start : P h)
    (deal : ∀ {h g given made rest}, Deals h given g made → h.Balanced (given + rest) → kept ≤ rest → P h → P g) :
    P g := by
  induction run with
  | start _ => exact start
  | perform r run borrowed within done ih =>
    have b' := run.balanced disciplined b
    have d := (perform_balances disciplined host.frames r _ _ b' borrowed).of_ok done
    exact deal d b' within (ih b)
  | withTracker t run ih =>
    exact deal (Deals.withTracker t) (by rw [zero_add]; exact run.balanced disciplined b) run.kept_last (ih b)
  | withSink sink run ih =>
    exact deal (Deals.withSink sink) (by rw [zero_add]; exact run.balanced disciplined b) run.kept_last (ih b)

end Run

/-! ### A run of the stock host -/

namespace Stock

/-- A type whose sums are pairs of the operands. -/
def pairType : Descriptor Name where
  name := "pair"
  basicSize := 32
  number := some { add := some (.host .pair) }

/-- No short is interned, so the first object made is in slot 3. -/
def sampleConfig : Config := { shortRange := ⟨0, 0⟩ }

/-- An object is paired with itself and taken out of the pair again; then the pair
is joined with what is no tuple, which fails and consumes both. -/
def sample : List (Request Name) :=
  [.register pairType, .allocate ⟨4⟩ 7, .acquire ⟨3⟩, .binary .add ⟨3⟩ ⟨3⟩, .item ⟨4⟩ 0, .acquire ⟨4⟩, .none,
    .binary .concat ⟨4⟩ Interned.none]

end Stock

/-! ### Exact counts -/

theorem Fault.limit_iff {f : Fault} : f.Limit ↔ f = .stackOverflow ∨ f = .registryFull := by
  cases f <;> simp [Fault.Limit]

/-- A reference that is held can be given back. -/
theorem Heap.Balanced.perform_tryRelease {h : Heap κ} {held : Multiset Ref} (b : h.Balanced held) (host : Host κ)
    {a : Ref} (ha : a ∈ held) : ∃ g, host.perform (.tryRelease a) h = .ok (.ok (), g) := by
  obtain ⟨rest, rfl⟩ := Multiset.exists_cons_of_mem ha
  rw [← Multiset.singleton_add] at b
  obtain ⟨-, fits⟩ := tryRelease_deals b
  refine ⟨(h.tryRelease a).1, ?_⟩
  unfold Host.perform
  cases host.frames with
  | zero => exact step_tryRelease host _ _ fits
  | succ n => exact step_tryRelease host _ _ fits

/-- **Every reference is counted exactly once.** In a heap that a run has reached, held references and items of
live objects name live objects, and the count of a live object is the number of held references to it, plus the
places in live objects that name it, plus one if it is immortal. So no release has been skipped, whatever is held
can be given back, and a request that uses what is held stops at no fault but a limit of the machine. -/
theorem refcount_exact {host : Host κ} (disciplined : host.Disciplined) {c : Config} {h : Heap κ}
    {held : Multiset Ref} (run : Run host 0 (.ofConfig c) 0 h held) :
    (∀ a ∈ held, ∃ o, h.object? a = some o) ∧
    (∀ r o, h.object? r = some o → (∀ a ∈ o.payload.children, ∃ o', h.object? a = some o') ∧
      o.refcount = held.count r + h.store.mentions r + if o.immortal then 1 else 0) ∧
    h.violations = 0 ∧
    (∀ a ∈ held, ∃ g, host.perform (.tryRelease a) h = .ok (.ok (), g)) ∧
    (∀ (r : Request κ) (rest : Multiset Ref), held = r.consumes + rest → (∀ a ∈ r.borrows, a ∈ rest) →
      ∀ f, host.perform r h = .error f → f = .stackOverflow ∨ f = .registryFull) ∧
    (host.Settled → ∀ (r : Request κ) (g : Heap κ), host.forgets r g = 0) := by
  have b := run.balanced disciplined (Heap.balanced_ofConfig c)
  refine ⟨fun a ha => b.held_live ha, fun r o live => ⟨fun a ha => b.item_live live ha, ?_⟩, ?_,
    fun a ha => b.perform_tryRelease host ha, fun r rest he borrowed f hf => ?_, fun settled => settled.forgets_eq_zero⟩
  · have he := b.exact r
    rw [live] at he
    exact he
  · exact run.induct (P := fun h => h.violations = 0) disciplined (Heap.balanced_ofConfig c) rfl
      fun d _ _ hv => d.violations.trans hv
  · subst he
    exact Fault.limit_iff.mp ((perform_balances disciplined host.frames r h rest b borrowed).of_error hf)

/-- The object that is paired with itself is held once and owned twice. -/
theorem refcount_exact_paired : ∃ (h : Heap Stock.Name) (o : Object),
    Run (Stock.host 8) 0 (.ofConfig Stock.sampleConfig) 0 h {⟨3⟩, ⟨4⟩} ∧ h.object? ⟨3⟩ = some o ∧ o.refcount = 3 ∧
    o.refcount = ({⟨3⟩, ⟨4⟩} : Multiset Ref).count ⟨3⟩ + h.store.mentions ⟨3⟩ + (if o.immortal then 1 else 0) ∧
    h.violations = 0 ∧ ∀ (r : Request Stock.Name) (g : Heap Stock.Name), (Stock.host 8).forgets r g = 0 := by
  have hplay : ((Stock.host 8).play 0 Stock.sample (.ofConfig Stock.sampleConfig) 0).map
      (fun p => (p.2, (p.1.object? ⟨3⟩).map Object.refcount)) = some ({⟨3⟩, ⟨4⟩}, some 3) := by decide +kernel
  obtain ⟨h, run, hc⟩ := Run.of_play (fun h => (h.object? ⟨3⟩).map Object.refcount) (Multiset.zero_le _) hplay
  obtain ⟨o, live, hc⟩ := Option.map_eq_some_iff.mp hc
  obtain ⟨-, counted, none, -, -, forgets⟩ := refcount_exact (Stock.host_disciplined 8) run
  exact ⟨h, o, run, live, hc, (counted ⟨3⟩ o live).2, none, forgets (Stock.host_settled 8)⟩

end CountedHeap
