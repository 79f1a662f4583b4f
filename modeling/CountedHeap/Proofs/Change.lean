/-
# The single changes of a heap

Whatever a request does, it does in steps of few kinds: a reference to a live
object is added or taken away, an object leaves its slot when its last reference
goes, a new object takes a block, a release that does not fit is counted, a type
is registered, the depth changes, something is reported. Besides, its tracker and
its sink can be replaced. `Change h a g` says that one such step, `a`, leads from
`h` to `g`, and `Trace` puts steps in a row.

A step writes at most one slot. What a release finds, where a dead block goes and
where a new one comes from is said once here, by cases.
-/
import CountedHeap.Heap.Allocate
import CountedHeap.Proofs.Slots

namespace CountedHeap

/-- Whether objects of a type hold this kind of payload. -/
def Payload.Fits (type : TypeId) : Payload → Prop
  | .none => type = .none
  | .bool _ => type = .bool
  | .short _ => type = .short
  | .tuple _ => type = .tuple
  | .host _ => type.isBuiltin = false

/-- A new object with one reference. -/
def Object.fresh {κ : Role → Type} (type : TypeId) (d : Descriptor κ) (payload : Payload) : Object :=
  { refcount := 1, type, length := payload.children.length, size := d.blockSize payload.children.length,
    immortal := false, payload }

/-- A single step. -/
inductive Act where
  | acquire (r : Ref)
  /-- One of several references is given back. -/
  | drop (r : Ref)
  /-- The last reference is given back, and the object leaves its slot. -/
  | bury (r : Ref) (dead : Object)
  /-- An object is put into a slot. -/
  | make (r : Ref) (new : Object)
  | hit (r : Ref)
  | dispatch (op typeName : String) (position : Nat)
  /-- A release that does not fit is counted. -/
  | skip (cause : Inconsistency)
  | register
  | setDepth (n : Nat)
  /-- The tracker or the sink is replaced. -/
  | configure
  deriving DecidableEq, Repr

variable {κ : Role → Type}

/-- One step from a heap to the next. -/
inductive Change : Heap κ → Act → Heap κ → Prop
  | acquire {h : Heap κ} {r : Ref} {o : Object} (live : h.object? r = some o) :
      Change h (.acquire r) (h.setSlot r (.live { o with refcount := o.refcount + 1 }))
  | drop {h : Heap κ} {r : Ref} {o : Object} (kept : h.verdict r = .kept o) :
      Change h (.drop r) (h.decrement r o)
  | bury {h : Heap κ} {r : Ref} {o : Object} (dies : h.verdict r = .dies o) :
      Change h (.bury r o) (h.bury r o)
  | make {h g : Heap κ} {r : Ref} {type : TypeId} {d : Descriptor κ} {payload : Payload}
      (found : h.types.get? type = some d) (fits : payload.Fits type)
      (taken : h.takeBlock d.name (d.blockSize payload.children.length) = .ok (.ok r, g)) :
      Change h (.make r (.fresh type d payload)) (g.setSlot r (.live (.fresh type d payload)))
  | hit {h : Heap κ} {r : Ref} (interned : r.index < h.interned.count) :
      Change h (.hit r) (h.emit (.hit r))
  | dispatch {h : Heap κ} (op typeName : String) (position : Nat) :
      Change h (.dispatch op typeName position) (h.emit (.dispatch op typeName position))
  | skip {h : Heap κ} (cause : Inconsistency) :
      Change h (.skip cause) ({ h with violations := h.violations + 1 }.emit (.violation cause))
  | register {h : Heap κ} {d : Descriptor κ} {type : TypeId} {types : Registry κ}
      (added : h.types.register d = .ok (type, types)) : Change h .register { h with types := types }
  | setDepth {h : Heap κ} (n : Nat) : Change h (.setDepth n) { h with depth := n }
  | withTracker {h : Heap κ} (t : Tracker) : Change h .configure (h.withTracker t)
  | withSink {h : Heap κ} (sink : Sink) : Change h .configure (h.withSink sink)

/-- Steps in a row. -/
inductive Trace : Heap κ → List Act → Heap κ → Prop
  | nil {h : Heap κ} : Trace h [] h
  | cons {h g h' : Heap κ} {a : Act} {acts : List Act} : Change h a g → Trace g acts h' → Trace h (a :: acts) h'

namespace Trace

variable {h g h' : Heap κ} {acts rest : List Act}

theorem append (first : Trace h acts g) (last : Trace g rest h') : Trace h (acts ++ rest) h' := by
  induction first with
  | nil => exact last
  | cons c _ ih => exact .cons c (ih last)

theorem single {a : Act} (c : Change h a g) : Trace h [a] g := .cons c .nil

/-- What each step keeps, a trace keeps. -/
theorem induct {P : Heap κ → Prop} (t : Trace h acts h') (step : ∀ {h a g}, Change h a g → P h → P g)
    (start : P h) : P h' := by
  induction t with
  | nil => exact start
  | cons c _ ih => exact ih (step c start)

end Trace

/-! ### What a step does to the store -/

/-- A charged block is in the counts. -/
theorem Ledger.allocate_ok {l l' : Ledger} {size : Nat} (h : l.allocate size = .ok l') :
    l'.counts = l.counts.allocate size ∧ l.tracker.allocate size = .ok l'.tracker := by
  unfold allocate at h
  split at h
  · cases h
  · rename_i tracker ht
    cases h
    exact ⟨rfl, ht⟩

namespace Heap

variable {h g : Heap κ} {r : Ref} {o : Object}

theorem slot_of_object? (live : h.object? r = some o) : h.store.slots[r.index]? = some (.live o) := by
  unfold object? Store.object? at live
  obtain ⟨slot, hs, hl⟩ := Option.bind_eq_some_iff.mp live
  cases slot with
  | live o' =>
    rw [hs]
    simpa [Slot.object?] using hl
  | vacant => simp [Slot.object?] at hl
  | parked next size => simp [Slot.object?] at hl

theorem object?_of_slot (live : h.store.slots[r.index]? = some (.live o)) : h.object? r = some o := by
  unfold object? Store.object?
  rw [live]
  rfl

theorem verdict_kept (kept : h.verdict r = .kept o) : h.object? r = some o ∧ 1 < o.refcount := by
  have hs := slot_of_verdict (congrArg Verdict.object? kept)
  refine ⟨object?_of_slot hs, ?_⟩
  unfold verdict at kept
  rw [hs] at kept
  simp only at kept
  split at kept
  · cases kept
  split at kept
  · assumption
  · cases kept

theorem verdict_dies (dies : h.verdict r = .dies o) :
    h.object? r = some o ∧ o.refcount ≤ 1 ∧ ¬ (o.immortal ∧ o.refcount = 1) := by
  have hs := slot_of_verdict (congrArg Verdict.object? dies)
  refine ⟨object?_of_slot hs, ?_⟩
  unfold verdict at dies
  rw [hs] at dies
  simp only at dies
  split at dies
  · cases dies
  rename_i hi
  split at dies
  · cases dies
  exact ⟨by omega, hi⟩

theorem cascade_refused {cause : Inconsistency} (hv : h.verdict r = .refused cause)
    (first : Option Inconsistency) (rest : List Ref) :
    h.cascade first (r :: rest) = h.cascade (first.or (some cause)) rest := by
  rw [cascade]
  split <;> rename_i hv' <;> rw [hv] at hv' <;> cases hv'
  rfl

theorem cascade_kept (hv : h.verdict r = .kept o)
    (first : Option Inconsistency) (rest : List Ref) :
    h.cascade first (r :: rest) = (h.decrement r o).cascade first rest := by
  rw [cascade]
  split <;> rename_i hv' <;> rw [hv] at hv' <;> cases hv'
  rfl

theorem cascade_dies (hv : h.verdict r = .dies o)
    (first : Option Inconsistency) (rest : List Ref) :
    h.cascade first (r :: rest) = (h.bury r o).cascade first (o.payload.children.reverse ++ rest) := by
  rw [cascade]
  split <;> rename_i hv' <;> rw [hv] at hv' <;> cases hv'
  rfl

/-- The block of a dead object is parked in a class that has room for it, or it is given back. -/
theorem bury_cases (h : Heap κ) (r : Ref) (o : Object) :
    (∃ c, h.types.parks o.type = true ∧ h.store.roomFor? o.size = some c ∧
      h.bury r o = { h with store := h.store.park r c }.emit (.park r o.size)) ∨
    h.bury r o =
      { h with store := (h.store.put r .vacant).vacate r, ledger := h.ledger.free o.size }.emit (.free r o.size) := by
  have hstore : ∀ c, (h.store.put r .vacant).park r c = h.store.park r c := by
    intro c
    unfold Store.park Store.put
    rw [Array.setIfInBounds_setIfInBounds]
  unfold bury freeBlock
  split
  · rename_i c hc
    unfold parkingFor? at hc
    split at hc
    · rename_i hp
      exact Or.inl ⟨c, hp, hc, by rw [← hstore]; rfl⟩
    · cases hc
  · exact Or.inr rfl

/-- A block is taken from the free list of its size, or charged and put where a slot is free. -/
theorem takeBlock_cases {name : String} {size : Nat} (taken : h.takeBlock name size = .ok (.ok r, g)) :
    (∃ c next n, h.store.sizeClass? size = some c ∧ c.head = some r ∧
      h.store.slots[r.index]? = some (.parked next n) ∧
      g = { h with
        store := { h.store with
          classes := SizeClass.update h.store.classes ⟨size, next, c.length - 1⟩ } }.emit (.reuse r name size)) ∨
    (∃ ledger, h.store.takeParked size = .ok .none ∧ h.ledger.allocate size = .ok ledger ∧ r = h.store.freshRef ∧
      g = { h with store := h.store.takeFresh, ledger := ledger }.emit (.allocate r name size)) := by
  unfold takeBlock at taken
  cases hp : h.store.takeParked size with
  | error f => simp [hp, bind, Except.bind] at taken
  | ok found =>
    rw [hp] at taken
    cases found with
    | some p =>
      obtain ⟨r', store⟩ := p
      simp only [bind, Except.bind, pure, Except.pure, Except.ok.injEq, Prod.mk.injEq] at taken
      obtain ⟨rfl, rfl⟩ := taken
      unfold Store.takeParked at hp
      split at hp
      · rename_i size' r' length hc
        split at hp
        · rename_i next n hs
          simp only [Except.ok.injEq, Option.some.injEq, Prod.mk.injEq] at hp
          obtain ⟨rfl, rfl⟩ := hp
          exact Or.inl ⟨_, next, n, hc, rfl, hs, rfl⟩
        · cases hp
      · cases hp
    | none =>
      simp only [bind, Except.bind] at taken
      cases hl : h.ledger.allocate size with
      | error e => simp [hl, pure, Except.pure] at taken
      | ok ledger =>
        simp only [hl, pure, Except.pure, Except.ok.injEq, Prod.mk.injEq] at taken
        obtain ⟨rfl, rfl⟩ := taken
        exact Or.inr ⟨ledger, rfl, rfl, rfl, rfl⟩

/-- A refused block leaves the heap as it was. -/
theorem takeBlock_refused {name : String} {size : Nat} {e : Exhaustion}
    (refused : h.takeBlock name size = .ok (.error e, g)) : g = h := by
  unfold takeBlock at refused
  cases hp : h.store.takeParked size with
  | error f => simp [hp, bind, Except.bind] at refused
  | ok found =>
    rw [hp] at refused
    cases found with
    | some p => simp [bind, Except.bind, pure, Except.pure] at refused
    | none =>
      simp only [bind, Except.bind] at refused
      cases hl : h.ledger.allocate size with
      | error e' =>
        simp only [hl, pure, Except.pure, Except.ok.injEq, Prod.mk.injEq] at refused
        exact refused.2.symm
      | ok ledger => simp [hl, pure, Except.pure] at refused

end Heap

end CountedHeap
