/-
# Who is refused a block

A block is refused exactly if none of its size is parked and one more would exceed a
limit: the number of blocks, or else the number of bytes. What counts against a limit is
what the slots hold, the objects that can die and the parked blocks, in any state of a run
whose tracker is never replaced. So a budget can be exhausted only by what is there, and
an exhausted one is no obstacle while a parked block can be used again.

The bytes are added up in a word. A block with which they exceed it is measured by what is
left in the word, so it may be granted although the limit is far exceeded
(`blocks_granted_past_limit`). Up to there the sum is that of the bytes.

A block that is granted goes to one slot: a parked one of its size, else one that is vacant,
else a new one at the end. No other slot is touched.

Key definitions: `Tracker.limits?`, `Heap.Weighs`, `Heap.Parks`, `Heap.Sites`, `Rations`.
Key theorems: `Evolves.limits?_eq`, `Sustained.tracker_eq`,
`Heap.WellFormed.takeBlock_rations`, `blocks_rationed`.
-/
import CountedHeap.Proofs.HighWater
import CountedHeap.Proofs.Interning
import CountedHeap.Proofs.Twins

namespace CountedHeap

variable {κ : Role → Type}

/-! ### The limits stay -/

/-- The limits that a tracker counts against. -/
def Tracker.limits? : Tracker → Option Limits
  | .unmetered => none
  | .metered limits _ _ => some limits

theorem Tracker.limits?_free (t : Tracker) (size : Nat) : (t.free size).limits? = t.limits? := by
  cases t <;> rfl

theorem Tracker.limits?_allocate {t t' : Tracker} {size : Nat} (charged : t.allocate size = .ok t') :
    t'.limits? = t.limits? := by
  cases t with
  | unmetered =>
    cases Tracker.allocate_unmetered charged
    rfl
  | metered limits n m =>
    rw [(Tracker.allocate_metered charged).1]
    rfl

theorem Traffic.limits?_eq {h g : Heap κ} (t : Traffic h g) : g.ledger.tracker.limits? = h.ledger.tracker.limits? := by
  cases t with
  | still _ ledger => rw [ledger]
  | charged size _ ledger => exact Tracker.limits?_allocate (Ledger.allocate_ok ledger).2
  | returned size _ ledger =>
    rw [ledger]
    exact Tracker.limits?_free _ size

/-- **No request changes the limits.** -/
theorem Evolves.limits?_eq {h g : Heap κ} (evolves : Evolves h g) (wf : h.WellFormed) :
    g.ledger.tracker.limits? = h.ledger.tracker.limits? := by
  obtain ⟨acts, t, ha, -⟩ := evolves
  induction t with
  | nil => rfl
  | cons c _ ih =>
    obtain ⟨first, rest⟩ := not_or.mp (mt List.mem_cons.mpr ha)
    exact (ih (c.wellFormed wf) rest).trans (c.traffic wf (Ne.symm first)).limits?_eq

/-! ### What the tracker has counted -/

/-- If bytes are limited, a word can hold the number of those that are held. -/
def Heap.Weighs (limits : Limits) (h : Heap κ) : Prop := limits.maxMemory = .none ∨ h.FitsWord

/-- The tracker is never replaced. -/
abbrev Unreplaced (h g : Heap κ) : Prop := Installs (fun _ => False) h g

namespace Moment

variable {c : Config} {first h : Heap κ}

theorem mono {allows allows' : Heap κ → Heap κ → Prop} (moment : Moment allows first h)
    (imp : ∀ h g, allows h g → allows' h g) : Moment allows' first h := by
  induction moment with
  | start => exact .start
  | step _ change ha ih => exact ih.step change ha
  | configure _ allowed ih => exact ih.configure (imp _ _ allowed)

theorem limits?_eq (moment : Moment Unreplaced (.ofConfig c) h) :
    h.ledger.tracker.limits? = (Tracker.ofLimits c.limits).limits? := by
  induction moment with
  | start => rfl
  | step before change ha ih => exact (change.traffic before.booked.1 ha).limits?_eq.trans ih
  | configure _ allowed ih =>
    rcases allowed with ⟨sink, rfl⟩ | ⟨_, _, never, _⟩
    · exact ih
    · exact never.elim

end Moment

/-- **The tracker of a configuration counts what is held**, unless there is nothing to count for. -/
theorem Sustained.tracker_eq {c : Config} {h : Heap κ}
    (sustained : Sustained (Heap.Weighs c.limits) Unreplaced (.ofConfig c) h) :
    h.ledger.tracker = .unmetered ∧ c.limits = .standard ∨
      ∃ m, h.ledger.tracker = .metered c.limits h.heldBlocks m ∧ (c.limits.maxMemory = none ∨ m = h.heldBytes) := by
  have moment := sustained.moment
  have limits := moment.limits?_eq
  have charged : h.Charged :=
    (moment.mono fun _ _ allowed => allowed.imp id fun ⟨t, new, never, _⟩ => never.elim).charged
  unfold Tracker.ofLimits at limits
  cases tracker : h.ledger.tracker with
  | unmetered =>
    rw [tracker] at limits
    split at limits
    · rename_i standard
      exact .inl ⟨rfl, standard⟩
    · cases limits
  | metered l n m =>
    rw [tracker] at limits
    obtain ⟨hn, hm⟩ := charged l n m tracker
    split at limits
    · cases limits
    · cases limits
      have blocks : n = h.heldBlocks := hn.trans (moment.booked.2.blocks.trans (Slot.sum_held_one _))
      refine .inr ⟨m, by rw [blocks], ?_⟩
      -- only a memory limit makes the bytes matter
      by_cases unlimited : c.limits.maxMemory = none
      · exact .inl unlimited
      · have fits := sustained.mono (fun _ weighs => weighs.resolve_left unlimited) fun _ _ => id
        exact .inr (hm.trans (fits.bytes_eq fun _ _ => Installs.change))

/-! ### Refusals -/

/-- Why one more block is refused, if there are `n` and `used` is found to be the number of bytes with the new one:
there may not be more blocks; or there may be, but not as many bytes. -/
inductive Exhausts (limits : Limits) (n used : Nat) : Exhaustion → Prop
  | allocations {limit : Nat} (set : limits.maxAllocations = some limit) (full : limit ≤ n) :
      Exhausts limits n used (.allocations limit (n + 1))
  | memory {limit : Nat} (free : ∀ l, limits.maxAllocations = some l → n < l) (set : limits.maxMemory = some limit)
      (full : limit < used) : Exhausts limits n used (.memory limit used)

/-- Without a memory limit the bytes do not matter. -/
theorem Exhausts.of_unlimited {limits : Limits} {n used : Nat} {e : Exhaustion} (unlimited : limits.maxMemory = none)
    (exhausts : Exhausts limits n used e) (used' : Nat) : Exhausts limits n used' e := by
  cases exhausts with
  | allocations set full => exact .allocations set full
  | memory _ set _ =>
    rw [unlimited] at set
    cases set

theorem Tracker.refusal?_eq_some_iff {limits : Limits} {n m size : Nat} {e : Exhaustion} :
    Tracker.refusal? limits n m size = some e ↔ Exhausts limits n (Word.wrapAdd m size) e := by
  unfold Tracker.refusal?
  cases allocations : limits.maxAllocations.filter (· ≤ n) with
  | some limit =>
    obtain ⟨set, full⟩ := Option.filter_eq_some_iff.mp allocations
    have full : limit ≤ n := of_decide_eq_true full
    constructor
    · intro he
      cases he
      exact .allocations set full
    · rintro (⟨set', -⟩ | ⟨free, -, -⟩)
      · rw [set] at set'
        cases set'
        rfl
      · exact absurd (free limit set) (Nat.not_lt.mpr full)
  | none =>
    have free : ∀ l, limits.maxAllocations = some l → n < l := by
      intro l set
      rw [set] at allocations
      simpa using allocations
    constructor
    · intro he
      obtain ⟨limit, found, rfl⟩ := Option.map_eq_some_iff.mp he
      obtain ⟨set, full⟩ := Option.filter_eq_some_iff.mp found
      exact .memory free set (of_decide_eq_true full)
    · rintro (⟨set, full⟩ | ⟨-, set, full⟩)
      · exact absurd (free _ set) (Nat.not_lt.mpr full)
      · rw [set]
        simp [full]

namespace Heap

variable {h : Heap κ}

/-- A block of this size is parked. -/
def Parks (h : Heap κ) (size : Nat) : Prop :=
  ∃ (r : Ref) (next : Option Ref), h.store.slots[r.index]? = some (.parked next size)

theorem parks_iff {size : Nat} : h.Parks size ↔ h.store.slots.toList.any (Slot.isParkedOf size) = true := by
  constructor
  · rintro ⟨r, next, hs⟩
    exact List.any_eq_true.mpr ⟨_, Array.mem_toList_iff.mpr (Array.mem_of_getElem? hs), beq_self_eq_true size⟩
  · intro parked
    obtain ⟨slot, hin, hp⟩ := List.any_eq_true.mp parked
    obtain ⟨i, hi, rfl⟩ := List.mem_iff_getElem.mp hin
    cases slot : h.store.slots.toList[i] with
    | parked next n =>
      rw [slot] at hp
      refine ⟨⟨i⟩, next, ?_⟩
      rw [← Array.getElem?_toList, List.getElem?_eq_getElem hi, slot, beq_iff_eq.mp hp]
    | vacant | live =>
      rw [slot] at hp
      cases hp

instance (h : Heap κ) (size : Nat) : Decidable (h.Parks size) := decidable_of_iff _ parks_iff.symm

/-- The slot is one that a block of this size may go to: a parked one of the same size, else a vacant one, else a
new one. -/
def Sites (h : Heap κ) (size : Nat) (r : Ref) : Prop :=
  (∃ next, h.store.slots[r.index]? = some (.parked next size)) ∨
    ¬ h.Parks size ∧ (h.store.slots[r.index]? = some .vacant ∨
      (∀ a : Ref, h.store.slots[a.index]? ≠ some .vacant) ∧ r.index = h.store.slots.size)

/-- One more block, with which `used` bytes would be held, would exceed one of the limits. -/
def Full (h : Heap κ) (limits : Limits) (used : Nat) : Prop :=
  (∃ limit, limits.maxAllocations = some limit ∧ limit ≤ h.heldBlocks) ∨
    ∃ limit, limits.maxMemory = some limit ∧ limit < used

theorem WellFormed.not_parks (wf : h.WellFormed) {size : Nat} (none : h.store.takeParked size = .ok .none) :
    ¬ h.Parks size := by
  obtain ⟨chain, hf⟩ := wf.store
  have empty := hf.parkedOf_eq_zero none
  rw [hf.parkedOf_eq, List.countP_eq_zero] at empty
  rw [parks_iff, List.any_eq_true]
  rintro ⟨slot, hin, parked⟩
  exact empty slot hin parked

/-- A fresh block goes to a vacant slot, and to a new one only if there is none. -/
theorem WellFormed.sites_fresh (wf : h.WellFormed) {size : Nat} (none : ¬ h.Parks size) :
    h.Sites size h.store.freshRef := by
  obtain ⟨chain, hf⟩ := wf.store
  refine .inr ⟨none, ?_⟩
  unfold Store.freshRef
  cases hv : h.store.vacant with
  | cons r rest =>
    left
    exact (hf.mem_vacant r).mp (hv ▸ List.mem_cons_self)
  | nil =>
    right
    refine ⟨fun a ha => ?_, rfl⟩
    have := (hf.mem_vacant a).mpr ha
    rw [hv] at this
    cases this

/-- **A block is parked, or it is fresh and charged, or it is refused.** -/
theorem WellFormed.takeBlock_rations (wf : h.WellFormed) (name : String) (size : Nat) :
    (∃ r g, h.takeBlock name size = .ok (.ok r, g) ∧ h.Sites size r ∧
      (h.Parks size ∨ ∃ ledger, h.ledger.allocate size = .ok ledger)) ∨
    ∃ e, h.takeBlock name size = .ok (.error e, h) ∧ ¬ h.Parks size ∧ h.ledger.allocate size = .error e := by
  obtain ⟨found, hp⟩ := wf.takeParked_ok size
  cases found with
  | some p =>
    have taken : h.takeBlock name size = .ok (.ok p.1, { h with store := p.2 }.emit (.reuse p.1 name size)) := by
      unfold takeBlock
      rw [hp]
      rfl
    refine .inl ⟨_, _, taken, ?_⟩
    rcases takeBlock_cases taken with ⟨c, next, n, found, head, parked, -⟩ | ⟨_, none, -⟩
    · obtain ⟨chain, hf⟩ := wf.store
      rw [hf.parked_size found head parked] at parked
      exact ⟨.inl ⟨next, parked⟩, .inl ⟨_, next, parked⟩⟩
    · rw [hp] at none
      cases none
  | none =>
    have none := wf.not_parks hp
    cases charged : h.ledger.allocate size with
    | ok ledger =>
      have taken : h.takeBlock name size = .ok (.ok h.store.freshRef,
          { h with store := h.store.takeFresh, ledger := ledger }.emit (.allocate h.store.freshRef name size)) := by
        simp only [takeBlock, hp, charged, bind, Except.bind]
        rfl
      exact .inl ⟨_, _, taken, wf.sites_fresh none, .inr ⟨ledger, rfl⟩⟩
    | error e =>
      have refused : h.takeBlock name size = .ok (.error e, h) := by
        simp only [takeBlock, hp, charged, bind, Except.bind]
        rfl
      exact .inr ⟨e, refused, none, rfl⟩

theorem construct_of_refused {type : TypeId} {d : Descriptor κ} {payload : Payload} {e : Exhaustion}
    (known : h.types.get? type = some d)
    (refused : h.takeBlock d.name (d.blockSize payload.children.length) = .ok (.error e, h)) :
    construct type payload h = .ok (.error (.exhausted e), h.releaseAll payload.children) := by
  have hget : h.types.get type = .ok d := by
    unfold Registry.get
    rw [known]
  unfold construct
  rw [hget]
  simp only [bind, Except.bind, refused]
  rfl

end Heap

/-- How a request for a block of `size` bytes ends, which `payload` is to be put into, if with it `used` bytes are
found to be held: it is refused exactly if none is parked and a limit would be exceeded, and then for that reason;
and if it is granted, one slot gets the new object, and no other changes. -/
structure Rations (limits : Limits) (h : Heap κ) (size used : Nat) (payload : Payload)
    (m : Except Fault (Except RunError Ref × Heap κ)) : Prop where
  ends : ∃ p, m = .ok p
  refused_iff : (∃ e g, m = .ok (.error e, g)) ↔ ¬ h.Parks size ∧ h.Full limits used
  reason : ∀ e g, m = .ok (.error e, g) → ∃ cause, e = .exhausted cause ∧ Exhausts limits h.heldBlocks used cause
  placed : ∀ r g, m = .ok (.ok r, g) → h.Sites size r ∧ ∃ o : Object, h.store.Writes g.store r (.live o) ∧
    o.size = size ∧ o.payload = payload ∧ o.refcount = 1 ∧ o.immortal = false

theorem Heap.full_iff {h : Heap κ} {limits : Limits} {used : Nat} :
    (∃ e, Exhausts limits h.heldBlocks used e) ↔ h.Full limits used := by
  constructor
  · rintro ⟨e, ⟨set, full⟩ | ⟨-, set, full⟩⟩
    · exact .inl ⟨_, set, full⟩
    · exact .inr ⟨_, set, full⟩
  · rintro (⟨limit, set, full⟩ | ⟨limit, set, full⟩)
    · exact ⟨_, .allocations set full⟩
    · by_cases free : ∀ l, limits.maxAllocations = some l → h.heldBlocks < l
      · exact ⟨_, .memory free set full⟩
      · push Not at free
        obtain ⟨l, set', full'⟩ := free
        exact ⟨_, .allocations set' full'⟩

namespace Sustained

variable {c : Config} {h : Heap κ}

/-- The ledger refuses what the contents of the heap leave no room for. -/
theorem allocate_error_iff (sustained : Sustained (Heap.Weighs c.limits) Unreplaced (.ofConfig c) h) {size : Nat}
    {e : Exhaustion} :
    h.ledger.allocate size = .error e ↔ Exhausts c.limits h.heldBlocks (Word.wrapAdd h.heldBytes size) e := by
  unfold Ledger.allocate
  rcases sustained.tracker_eq with ⟨tracker, standard⟩ | ⟨m, tracker, bytes⟩ <;> rw [tracker]
  · rw [standard]
    constructor
    · intro he
      cases he
    · rintro (⟨set, -⟩ | ⟨-, set, -⟩) <;> cases set
  · have same : Exhausts c.limits h.heldBlocks (Word.wrapAdd m size) e ↔
        Exhausts c.limits h.heldBlocks (Word.wrapAdd h.heldBytes size) e := by
      rcases bytes with unlimited | rfl
      · exact ⟨fun e => e.of_unlimited unlimited _, fun e => e.of_unlimited unlimited _⟩
      · exact Iff.rfl
    rw [← same, ← Tracker.refusal?_eq_some_iff]
    cases refusal : Tracker.refusal? c.limits h.heldBlocks m size <;> simp [Tracker.allocate, refusal]

/-- **Making an object of any type.** -/
theorem construct_rations (sustained : Sustained (Heap.Weighs c.limits) Unreplaced (.ofConfig c) h) {type : TypeId}
    {d : Descriptor κ} (known : h.types.get? type = some d) (payload : Payload) :
    Rations c.limits h (d.blockSize payload.children.length)
      (Word.wrapAdd h.heldBytes (d.blockSize payload.children.length)) payload (Heap.construct type payload h) := by
  have wf := sustained.moment.booked.1
  rcases wf.takeBlock_rations d.name (d.blockSize payload.children.length) with
    ⟨r, g, taken, sites, room⟩ | ⟨e, refused, none, exhausted⟩
  · have done := Heap.construct_of_taken known taken
    obtain ⟨-, w, -⟩ := Change.make_writes wf (.fresh type d payload) taken
    refine ⟨⟨_, done⟩, ⟨?_, ?_⟩, ?_, ?_⟩
    · rintro ⟨e, g', failed⟩
      rw [done] at failed
      cases failed
    · -- there was a parked block, or the ledger had room
      rintro ⟨none, full⟩
      obtain ⟨e, exhausted⟩ := Heap.full_iff.mpr full
      rcases room with parks | ⟨ledger, charged⟩
      · exact absurd parks none
      · rw [sustained.allocate_error_iff.mpr exhausted] at charged
        cases charged
    · intro e g' failed
      rw [done] at failed
      cases failed
    · intro r' g' done'
      rw [done] at done'
      cases done'
      exact ⟨sites, _, w, rfl, rfl, rfl, rfl⟩
  · have failed := Heap.construct_of_refused known refused
    have cause := sustained.allocate_error_iff.mp exhausted
    refine ⟨⟨_, failed⟩, ⟨fun _ => ⟨none, Heap.full_iff.mp ⟨e, cause⟩⟩, fun _ => ⟨_, _, failed⟩⟩, ?_, ?_⟩
    · intro e' g' failed'
      rw [failed] at failed'
      cases failed'
      exact ⟨e, rfl, cause⟩
    · intro r g' done
      rw [failed] at done
      cases done

end Sustained

/-- **A block is refused exactly if what is held leaves no room for it.** In any state of a run, whatever
references are forged, if the tracker of the configuration is never replaced: a short that is not interned takes 16
bytes, a tuple of `n` items 24 + 8 `n`, and an object of a host's type what that type says. The request ends as
`Rations` says, where bytes are added up in a word; and the sum is right exactly if it fits there. If bytes are
limited, those that are held must have fitted so far. -/
theorem blocks_rationed (host : Host κ) (c : Config) {h : Heap κ}
    (sustained : Sustained (Heap.Weighs c.limits) Unreplaced (.ofConfig c) h) :
    (∀ v, ¬ c.Interns (.short v) →
      Rations c.limits h 16 (Word.wrapAdd h.heldBytes 16) (.short v) (host.perform (.short v) h)) ∧
    (∀ items, Rations c.limits h (24 + 8 * items.length) (Word.wrapAdd h.heldBytes (24 + 8 * items.length))
      (.tuple items) (host.perform (.tuple items) h)) ∧
    (∀ type d payload, type.isBuiltin = false → h.types.get? type = some d →
      Rations c.limits h d.basicSize (Word.wrapAdd h.heldBytes d.basicSize) (.host payload)
        (host.perform (.allocate type payload) h)) ∧
    (∀ size, Word.wrapAdd h.heldBytes size = h.heldBytes + size ↔ h.heldBytes + size < UInt64.size) ∧
    ∀ (r : Request κ) (x : r.Answer) (g : Heap κ), host.perform r h = .ok (x, g) →
      Sustained (Heap.Weighs c.limits) Unreplaced (.ofConfig c) g ∨
        Sustained.Lapses (Heap.Weighs c.limits) Unreplaced (.ofConfig c) h g := by
  obtain ⟨n, inner, hstep⟩ := host.perform_eq_step
  have wf := sustained.moment.booked.1
  refine ⟨fun v out => ?_, fun items => ?_, fun type d payload hostType known => ?_,
    fun size => Word.wrapAdd_eq_iff, fun r _ _ done => sustained.perform host r done⟩
  · obtain ⟨acts, t⟩ := sustained.moment.exists_trace
    have missed : h.interned.short? v = none := by
      refine Option.eq_none_iff_forall_ne_some.mpr fun r found => out ?_
      exact (Heap.find?_interns t.interned (.short v)).mp ⟨r, found⟩
    have made : Heap.short v h = Heap.construct .short (.short v) h := by
      unfold Heap.short
      rw [missed]
    rw [hstep]
    show Rations c.limits h 16 _ (.short v) (Heap.short v h)
    rw [made]
    exact sustained.construct_rations (wf.builtin .short rfl) (.short v)
  · rw [hstep]
    exact sustained.construct_rations (wf.builtin .tuple rfl) (.tuple items)
  · have made : Heap.allocate type payload h = Heap.construct type (.host payload) h := by
      have registered : type.index < h.types.types.size := (Array.getElem?_eq_some_iff.mp known).1
      unfold Heap.allocate Registry.contains
      rw [hostType, decide_eq_true registered]
      rfl
    rw [hstep]
    show Rations c.limits h d.basicSize _ (.host payload) (Heap.allocate type payload h)
    rw [made]
    exact sustained.construct_rations known (.host payload)

/-- While no block has been returned, bytes that fit in a word now have done so all along. -/
theorem Moment.sustained_weighs {c : Config} {h : Heap κ} (moment : Moment Unreplaced (.ofConfig c) h)
    (none : h.ledger.counts.totalFrees = 0) (fits : h.FitsWord) :
    Sustained (Heap.Weighs c.limits) Unreplaced (.ofConfig c) h :=
  (moment.sustained_fitsWord none fits).mono (fun _ => .inr) fun _ _ => id

/-- With room for three blocks and 100 bytes: while two blocks are held, a tuple of nine items is too large.
With a tuple of one item besides there are three, and another tuple is one too many; but a short is made all
the same, since a block of its size is parked. -/
theorem blocks_rationed_tight :
    (∃ h g : Heap Stock.Name, Sustained (Heap.Weighs tightConfig.limits) Unreplaced (.ofConfig tightConfig) h ∧
      (Stock.host 8).perform (.tuple (.replicate 9 ⟨4⟩)) h = .ok (.error (.exhausted (.memory 100 128)), g)) ∧
    ∃ h : Heap Stock.Name, Sustained (Heap.Weighs tightConfig.limits) Unreplaced (.ofConfig tightConfig) h ∧
      (∃ g, (Stock.host 8).perform (.tuple []) h = .ok (.error (.exhausted (.allocations 3 4)), g)) ∧
      ∃ r g next, (Stock.host 8).perform (.short 302) h = .ok (.ok r, g) ∧
        h.store.slots[r.index]? = some (.parked next 16) := by
  constructor
  · have hrun : (((Stock.host 8).performAll parkingRequests (.ofConfig tightConfig)).toOption).map
        (fun h => (h.heldBlocks, h.heldBytes, h.ledger.counts.totalFrees, decide h.FitsWord, decide (h.Parks 96))) =
          some (2, 32, 0, true, false) := by decide +kernel
    obtain ⟨h, performed, seen⟩ := Reached.of_performAll _ hrun
    simp only [Prod.mk.injEq, decide_eq_false_iff_not, decide_eq_true_eq] at seen
    obtain ⟨blocks, bytes, frees, fits, none⟩ := seen
    have sustained := (Moment.performAll (Stock.host 8) .start performed).sustained_weighs frees fits
    have rations := (blocks_rationed (Stock.host 8) tightConfig sustained).2.1 (.replicate 9 ⟨4⟩)
    rw [bytes] at rations
    obtain ⟨e, g, failed⟩ := rations.refused_iff.mpr ⟨none, .inr ⟨100, rfl, by decide⟩⟩
    obtain ⟨cause, rfl, exhausts⟩ := rations.reason e g failed
    rw [blocks] at exhausts
    cases exhausts with
    | allocations set full =>
      cases set
      exact absurd full (by decide)
    | memory free set full =>
      cases set
      exact ⟨h, g, sustained, failed⟩
  · have hrun : (((Stock.host 8).performAll (parkingRequests ++ [.tuple [⟨4⟩]]) (.ofConfig tightConfig)).toOption).map
        (fun h => (h.heldBlocks, h.ledger.counts.totalFrees, decide h.FitsWord, decide (h.Parks 24),
          decide (h.Parks 16))) = some (3, 0, true, false, true) := by
      decide +kernel
    obtain ⟨h, performed, seen⟩ := Reached.of_performAll _ hrun
    simp only [Prod.mk.injEq, decide_eq_false_iff_not, decide_eq_true_eq] at seen
    obtain ⟨blocks, frees, fits, none, parked⟩ := seen
    have sustained := (Moment.performAll (Stock.host 8) .start performed).sustained_weighs frees fits
    obtain ⟨shorts, tuples, -⟩ := blocks_rationed (Stock.host 8) tightConfig sustained
    have rations := tuples []
    obtain ⟨e, g, failed⟩ := rations.refused_iff.mpr ⟨none, .inl ⟨3, rfl, Nat.le_of_eq blocks.symm⟩⟩
    obtain ⟨cause, rfl, exhausts⟩ := rations.reason e g failed
    rw [blocks] at exhausts
    have granted := shorts 302 fun interns => absurd interns.1 (by decide)
    obtain ⟨⟨result, g'⟩, done⟩ := granted.ends
    cases result with
    | error e => exact absurd parked (granted.refused_iff.mp ⟨e, g', done⟩).1
    | ok r =>
      obtain ⟨sites, -⟩ := granted.placed r g' done
      obtain ⟨next, hs⟩ := sites.resolve_right fun fresh => fresh.1 parked
      cases exhausts with
      | allocations set full =>
        cases set
        exact ⟨h, sustained, ⟨g, failed⟩, r, g', next, done, hs⟩
      | memory free set full => exact absurd (free 3 rfl) (by decide)

/-- Room for 100 bytes. -/
def smallConfig : Config := { limits := { maxMemory := some 100 }, shortRange := ⟨0, 0⟩ }

/-- A type whose objects are ten bytes short of filling a word. -/
def vastRequests : List (Request Stock.Name) :=
  [.short 300, .register { name := "vast", basicSize := 18446744073709551605 }]

/-- While 16 of 100 bytes are held, an object that is almost as large as a word is granted: of the sum only 5
bytes are left. -/
theorem blocks_granted_past_limit : ∃ (h g : Heap Stock.Name) (r : Ref),
    Sustained (Heap.Weighs smallConfig.limits) Unreplaced (.ofConfig smallConfig) h ∧ h.heldBytes = 16 ∧
    ¬ h.Parks 18446744073709551605 ∧ h.Full smallConfig.limits (h.heldBytes + 18446744073709551605) ∧
    (Stock.host 8).perform (.allocate ⟨4⟩ 1) h = .ok (.ok r, g) ∧ g.heldBytes = 18446744073709551621 ∧
    g.ledger.tracker = .metered smallConfig.limits 2 5 := by
  have hrun : (((Stock.host 8).performAll vastRequests (.ofConfig smallConfig)).toOption).map
      (fun h => (h.heldBytes, h.ledger.counts.totalFrees, decide (h.Parks 18446744073709551605),
        answered? (fun _ g => (g.heldBytes, g.ledger.tracker)) ((Stock.host 8).perform (.allocate ⟨4⟩ 1) h))) =
      some (16, 0, false, some (18446744073709551621, .metered smallConfig.limits 2 5)) := by
    decide +kernel
  obtain ⟨h, performed, seen⟩ := Reached.of_performAll _ hrun
  simp only [Prod.mk.injEq, decide_eq_false_iff_not] at seen
  obtain ⟨bytes, frees, none, answer⟩ := seen
  have fits : h.FitsWord := Nat.lt_of_le_of_lt (Nat.le_of_eq bytes) (by decide)
  have sustained := (Moment.performAll (Stock.host 8) .start performed).sustained_weighs frees fits
  obtain ⟨r, g, done, seen⟩ := answered?_eq_some answer
  obtain ⟨held, tracker⟩ := Prod.mk.inj seen
  refine ⟨h, g, r, sustained, bytes, none, .inr ⟨100, rfl, ?_⟩, done, held, tracker⟩
  rw [bytes]
  decide

end CountedHeap
