/-
# The ledger agrees with the slots

A heap holds blocks of two kinds: those of its mortal objects and the parked ones.
The ledger counts them without looking at the slots. It is told when a fresh block
is taken and when one is given back, and it is not told when a block is parked, when
a parked one is used again, or of interned objects. `Traffic` says that each step is
one of three: nothing comes or goes, one block is charged, one is returned. All
that the ledger and the tracker count follows from that, whatever references are
forged.

Blocks are counted exactly. Bytes are counted in words, and a sum that is carried out of
its word is lost without notice; so they are exact as long as the bytes that are held have
fitted in a word (`Heap.FitsWord`), and wrong after the first step with which they no longer
do. The ledger subtracts without going below zero. Where its counts are exact, no such
subtraction is cut off; neither are those of a tracker that was new when no block was held.

Key definitions: `Store.held`, `Heap.FitsWord`, `Traffic`, `Heap.Booked`, `IsPeak`, `Installs`.
Key theorems: `Change.traffic`, `Change.bytes_mod`, `accounts_exact`.
-/
import CountedHeap.Proofs.Inventory

namespace CountedHeap

variable {κ : Role → Type}

/-! ### The blocks that a heap holds -/

namespace Slot

/-- What the block in a slot weighs, if `weigh` says what a block of a size does. The
blocks of immortal objects are not held. -/
def held (weigh : Nat → Nat) : Slot → Nat
  | .live o => if o.immortal then 0 else weigh o.size
  | .parked _ size => weigh size
  | .vacant => 0

/-- Whether the slot holds an object that can die. -/
def isMortal : Slot → Bool
  | .live o => !o.immortal
  | _ => false

theorem held_mortal {o : Object} (mortal : o.immortal = false) (weigh : Nat → Nat) :
    (Slot.live o).held weigh = weigh o.size := by
  simp [held, mortal]

/-- A sum that counts the slots of two kinds. -/
theorem sum_map_eq_countP {f : Slot → Nat} {p q : Slot → Bool}
    (each : ∀ slot, f slot = (p slot).toNat + (q slot).toNat) :
    ∀ l : List Slot, (l.map f).sum = l.countP p + l.countP q
  | [] => rfl
  | slot :: l => by
    rw [List.map_cons, List.sum_cons, sum_map_eq_countP each l, each slot, List.countP_cons, List.countP_cons]
    cases p slot <;> cases q slot <;> simp <;> omega

/-- Each mortal object and each parked block is one block. -/
theorem sum_held_one (l : List Slot) : (l.map (held fun _ => 1)).sum = l.countP isMortal + l.countP isParked := by
  refine sum_map_eq_countP (fun slot => ?_) l
  cases slot with
  | vacant | parked => rfl
  | live o => cases hi : o.immortal <;> simp [held, isMortal, isParked, hi]

end Slot

namespace Store

/-- The weight of all blocks that a store holds. -/
def held (s : Store) (weigh : Nat → Nat) : Nat := (s.slots.toList.map (Slot.held weigh)).sum

variable {s s' : Store} {r : Ref} {new old : Slot}

theorem Writes.held_eq (w : Writes s s' r new) (weigh : Nat → Nat) :
    s'.held weigh + (s.slots[r.index]?).elim 0 (Slot.held weigh) = s.held weigh + new.held weigh :=
  w.sum_eq _

/-- A write that leaves the block in its slot. -/
theorem Writes.held_same (w : Writes s s' r new) (hs : s.slots[r.index]? = some old)
    (same : ∀ weigh, new.held weigh = old.held weigh) (weigh : Nat → Nat) : s'.held weigh = s.held weigh := by
  have he := w.held_eq weigh
  rw [hs, same weigh] at he
  exact Nat.add_right_cancel he

/-- A block is part of what is held. -/
theorem le_held (hs : s.slots[r.index]? = some old) (weigh : Nat → Nat) : old.held weigh ≤ s.held weigh :=
  List.le_sum_of_mem (List.mem_map_of_mem (Array.mem_toList_iff.mpr (Array.mem_of_getElem? hs)))

/-- Without blocks there are no bytes. -/
theorem held_eq_zero (none : (s.held fun _ => 1) = 0) (weigh : Nat → Nat) : s.held weigh = 0 := by
  have hslot : ∀ slot ∈ s.slots.toList, slot.held weigh = 0 := by
    intro slot hin
    have hle : slot.held (fun _ => 1) ≤ 0 := none ▸ List.le_sum_of_mem (List.mem_map_of_mem hin)
    cases slot with
    | vacant => rfl
    | parked next size => simp [Slot.held] at hle
    | live o =>
      cases hi : o.immortal
      · simp [Slot.held, hi] at hle
      · simp [Slot.held, hi]
  exact List.sum_eq_zero (List.forall_mem_map.mpr hslot)

end Store

namespace Heap

/-- The blocks that are held: those of objects that can die, and the parked ones. -/
def heldBlocks (h : Heap κ) : Nat :=
  h.store.slots.toList.countP Slot.isMortal + h.store.slots.toList.countP Slot.isParked

/-- Their bytes. -/
def heldBytes (h : Heap κ) : Nat := (h.store.slots.toList.map (Slot.held fun size => size)).sum

/-- A word can hold the number of bytes that are held. -/
def FitsWord (h : Heap κ) : Prop := h.heldBytes < UInt64.size

instance (h : Heap κ) : Decidable h.FitsWord := inferInstanceAs (Decidable (_ < _))

end Heap

/-! ### One step -/

/-- What a step does to the blocks that a heap holds, and how the ledger follows. -/
inductive Traffic (h g : Heap κ) : Prop
  | still (held : ∀ weigh, g.store.held weigh = h.store.held weigh) (ledger : g.ledger = h.ledger)
  | charged (size : Nat) (held : ∀ weigh, g.store.held weigh = h.store.held weigh + weigh size)
      (ledger : h.ledger.allocate size = .ok g.ledger)
  | returned (size : Nat) (held : ∀ weigh, g.store.held weigh + weigh size = h.store.held weigh)
      (ledger : g.ledger = h.ledger.free size)

/-- A block that is reused has the size for which it is taken. -/
theorem Store.Formed.parked_size {s : Store} {chain : Nat → List Ref} (f : Formed s chain) {size n : Nat}
    {c : SizeClass} {r : Ref} {next : Option Ref} (found : s.sizeClass? size = some c) (head : c.head = some r)
    (parked : s.slots[r.index]? = some (.parked next n)) : n = size := by
  obtain ⟨hmem, rfl⟩ := sizeClass?_mem found
  obtain ⟨next', rest, -, hs, -⟩ := (head ▸ f.linked c hmem).head_eq
  rw [parked] at hs
  exact (Slot.parked.inj (Option.some.inj hs)).2

namespace Change

variable {h g : Heap κ} {a : Act}

/-- A count that changes moves no block. -/
theorem traffic_recount {r : Ref} {o : Object} (live : h.object? r = some o) (n : Nat) :
    Traffic h (h.setSlot r (.live { o with refcount := n })) := by
  have hs := Heap.slot_of_object? live
  have w : h.store.Writes (h.setSlot r (.live { o with refcount := n })).store r _ := Store.writes_put hs _
  exact .still (w.held_same hs fun _ => rfl) rfl

/-- The block of a dead object is still held if it is parked, and returned if not. -/
theorem traffic_bury (wf : h.WellFormed) {r : Ref} {o : Object} (dies : h.verdict r = .dies o) :
    Traffic h (h.bury r o) := by
  obtain ⟨live, -, mortal⟩ := wf.dies dies
  have hs := Heap.slot_of_object? live
  rcases Heap.bury_cases h r o with ⟨c, -, hroom, he⟩ | he <;> rw [he]
  · have hsize : c.size = o.size := (Store.sizeClass?_mem (Option.filter_eq_some_iff.mp hroom).1).2
    have w : h.store.Writes (h.store.park r c) r (.parked c.head c.size) := Store.writes_put hs _
    refine .still (fun weigh => w.held_same hs (fun weigh => ?_) weigh) rfl
    rw [Slot.held_mortal mortal, ← hsize]
    rfl
  · have w : h.store.Writes ((h.store.put r .vacant).vacate r) r .vacant := Store.writes_put hs _
    refine .returned o.size (fun weigh => ?_) rfl
    have hw := w.held_eq weigh
    rw [hs] at hw
    rw [← Slot.held_mortal mortal weigh]
    exact hw

/-- The block of a new object was held already if it was parked, and is charged if none of its size is. -/
theorem make_cases (wf : h.WellFormed) {r : Ref} {type : TypeId} {d : Descriptor κ} {payload : Payload}
    (taken : h.takeBlock d.name (d.blockSize payload.children.length) = .ok (.ok r, g)) :
    (∀ weigh, (g.setSlot r (.live (.fresh type d payload))).store.held weigh = h.store.held weigh) ∧
      g.ledger = h.ledger ∨
    (∀ weigh, (g.setSlot r (.live (.fresh type d payload))).store.held weigh =
        h.store.held weigh + weigh (d.blockSize payload.children.length)) ∧
      h.ledger.allocate (d.blockSize payload.children.length) = .ok g.ledger ∧
      h.store.takeParked (d.blockSize payload.children.length) = .ok none ∧ g.store.classes = h.store.classes := by
  obtain ⟨-, w, -⟩ := make_writes wf (.fresh type d payload) taken
  obtain ⟨chain, hf⟩ := wf.store
  have hnew : ∀ weigh, (Slot.live (.fresh type d payload)).held weigh = weigh (d.blockSize payload.children.length) :=
    fun weigh => Slot.held_mortal rfl weigh
  rcases Heap.takeBlock_cases taken with ⟨c, next, n, hc, hhead, hp, rfl⟩ | ⟨ledger, none, hl, rfl, rfl⟩
  · have hn := hf.parked_size hc hhead hp
    refine Or.inl ⟨fun weigh => w.held_same hp (fun weigh => ?_) weigh, rfl⟩
    rw [hnew, ← hn]
    rfl
  · refine Or.inr ⟨fun weigh => ?_, hl, none, h.store.takeFresh_classes⟩
    have hfree : (h.store.slots[h.store.freshRef.index]?).elim 0 (Slot.held weigh) = 0 := by
      rcases (hf.writes_fresh (o := .fresh type d payload)).2 with hv | hend
      · rw [hv]
        rfl
      · rw [hend, Array.getElem?_eq_none (Nat.le_refl _)]
        rfl
    have hw := w.held_eq weigh
    rw [hfree, hnew] at hw
    exact hw

theorem traffic (c : Change h a g) (wf : h.WellFormed) (ha : a ≠ .configure) : Traffic h g := by
  cases c with
  | acquire live => exact traffic_recount live _
  | drop kept => exact traffic_recount (Heap.verdict_kept kept).1 _
  | bury dies => exact traffic_bury wf dies
  | make found fits taken =>
    rcases make_cases wf taken with ⟨held, ledger⟩ | ⟨held, ledger, -⟩
    · exact .still held ledger
    · exact .charged _ held ledger
  | hit | dispatch | skip | register | setDepth => exact .still (fun _ => rfl) rfl
  | withTracker | withSink => exact absurd rfl ha

/-- Replacing the tracker or the sink moves no block and keeps the counts. -/
theorem configure_counts (c : Change h .configure g) :
    g.store = h.store ∧ g.ledger.counts = h.ledger.counts := by
  cases c with
  | withTracker | withSink => exact ⟨rfl, rfl⟩

theorem configure_heldBytes (c : Change h .configure g) : g.heldBytes = h.heldBytes :=
  congrArg (Store.held · _) c.configure_counts.1

end Change

/-! ### The counts of the ledger -/

namespace Heap

/-- The ledger counts the blocks that the heap holds, and no more bytes than they have. -/
structure Booked (h : Heap κ) : Prop where
  blocks : h.ledger.counts.liveBlocks = h.store.held fun _ => 1
  bytes : h.ledger.counts.liveBytes ≤ h.heldBytes
  balance : h.ledger.counts.liveBlocks + h.ledger.counts.totalFrees = h.ledger.counts.totalAllocations
  blocks_le : h.ledger.counts.liveBlocks ≤ h.ledger.counts.peakBlocks
  bytes_le : h.ledger.counts.liveBytes ≤ h.ledger.counts.peakBytes

variable {h g : Heap κ}

/-- At the start nothing is held. -/
theorem held_ofConfig (c : Config) (weigh : Nat → Nat) : (Heap.ofConfig c : Heap κ).store.held weigh = 0 := by
  have hslot : ∀ slot ∈ (Heap.ofConfig c : Heap κ).store.slots.toList, slot.held weigh = 0 := by
    intro slot hin
    obtain ⟨i, hi, rfl⟩ := List.mem_iff_getElem.mp hin
    obtain ⟨o, ho, horig⟩ := Interned.slots_original ⟨c.internedRange⟩
      (n := i) (by rw [← Array.getElem?_toList]; exact List.getElem?_eq_getElem hi)
    rw [ho]
    simp [Slot.held, horig.immortal]
  exact List.sum_eq_zero (List.forall_mem_map.mpr hslot)

theorem booked_ofConfig (c : Config) : (Heap.ofConfig c : Heap κ).Booked :=
  ⟨(held_ofConfig c _).symm, Nat.zero_le _, rfl, Nat.le_refl _, Nat.le_refl _⟩

/-- Only slots and counts matter. -/
theorem Booked.of_eq (b : h.Booked) (store : g.store = h.store) (counts : g.ledger.counts = h.ledger.counts) :
    g.Booked := by
  refine ⟨?_, ?_, ?_, ?_, ?_⟩ <;> rw [counts]
  · rw [store]
    exact b.blocks
  · unfold heldBytes
    rw [store]
    exact b.bytes
  · exact b.balance
  · exact b.blocks_le
  · exact b.bytes_le

/-- A block that can be given back is counted. -/
theorem Booked.covers (b : h.Booked) {r : Ref} {o : Object} (live : h.object? r = some o)
    (mortal : o.immortal = false) :
    1 ≤ h.ledger.counts.liveBlocks := by
  have hblock := Store.le_held (slot_of_object? live) fun _ => 1
  rw [Slot.held_mortal mortal] at hblock
  rw [b.blocks]
  exact hblock

/-- The bytes of a block that can be given back are held. -/
theorem size_le_heldBytes {r : Ref} {o : Object} (live : h.object? r = some o) (mortal : o.immortal = false) :
    o.size ≤ h.heldBytes := by
  have hbytes := Store.le_held (slot_of_object? live) fun size => size
  rw [Slot.held_mortal mortal] at hbytes
  exact hbytes

end Heap

namespace Traffic

variable {h g : Heap κ}

theorem booked (t : Traffic h g) (b : h.Booked) : g.Booked := by
  obtain ⟨blocks, bytes, balance, blocks_le, bytes_le⟩ := b
  cases t with
  | still held ledger =>
    refine ⟨?_, ?_, ?_, ?_, ?_⟩ <;> rw [ledger]
    · rw [held, blocks]
    · exact Nat.le_trans bytes (Nat.le_of_eq (held _).symm)
    · exact balance
    · exact blocks_le
    · exact bytes_le
  | charged size held ledger =>
    obtain ⟨hc, -⟩ := Ledger.allocate_ok ledger
    have hblocks := held fun _ => 1
    have hbytes : g.heldBytes = h.heldBytes + size := held _
    have hle := Word.wrapAdd_le h.ledger.counts.liveBytes size
    refine ⟨?_, ?_, ?_, ?_, ?_⟩ <;> rw [hc] <;> simp only [BlockCounts.allocate]
    · omega
    · omega
    · omega
    · exact Nat.le_max_right _ _
    · exact Nat.le_max_right _ _
  | returned size held ledger =>
    have hblocks := held fun _ => 1
    have hbytes : g.heldBytes + size = h.heldBytes := held _
    refine ⟨?_, ?_, ?_, ?_, ?_⟩ <;> rw [ledger] <;> simp only [Ledger.free, BlockCounts.free]
    · omega
    · omega
    · omega
    · omega
    · omega

/-- Bytes that were counted exactly are counted up to what is carried out of the word. -/
theorem bytes_mod (t : Traffic h g) (exact : h.ledger.counts.liveBytes = h.heldBytes) (fits : h.FitsWord) :
    g.ledger.counts.liveBytes = g.heldBytes % UInt64.size := by
  have hlt : h.heldBytes < UInt64.size := fits
  cases t with
  | still held ledger =>
    have hbytes : g.heldBytes = h.heldBytes := held _
    rw [ledger, exact, hbytes, Nat.mod_eq_of_lt hlt]
  | charged size held ledger =>
    have hbytes : g.heldBytes = h.heldBytes + size := held _
    obtain ⟨hc, -⟩ := Ledger.allocate_ok ledger
    rw [hc, hbytes, ← exact]
    exact Word.wrapAdd_eq_mod _ _
  | returned size held ledger =>
    have hbytes : g.heldBytes + size = h.heldBytes := held _
    rw [ledger, Nat.mod_eq_of_lt (by omega)]
    show h.ledger.counts.liveBytes - size = _
    omega

/-- A step returns a block, or the bytes that are held do not become fewer. -/
theorem returns_or_grows (t : Traffic h g) :
    g.ledger.counts.totalFrees = h.ledger.counts.totalFrees + 1 ∨
      g.ledger.counts.totalFrees = h.ledger.counts.totalFrees ∧ h.heldBytes ≤ g.heldBytes := by
  cases t with
  | still held ledger =>
    rw [ledger]
    exact Or.inr ⟨rfl, Nat.le_of_eq (held _).symm⟩
  | charged size held ledger =>
    have hbytes : g.heldBytes = h.heldBytes + size := held _
    rw [(Ledger.allocate_ok ledger).1]
    exact Or.inr ⟨rfl, by omega⟩
  | returned size held ledger =>
    rw [ledger]
    exact Or.inl rfl

/-- A peak rises to the level after a step, and never falls. -/
theorem peaks (t : Traffic h g) (b : h.Booked) :
    g.ledger.counts.peakBlocks = max h.ledger.counts.peakBlocks g.ledger.counts.liveBlocks ∧
      g.ledger.counts.peakBytes = max h.ledger.counts.peakBytes g.ledger.counts.liveBytes := by
  have hblocks := b.blocks_le
  have hbytes := b.bytes_le
  cases t with
  | still held ledger =>
    rw [ledger]
    omega
  | charged size held ledger =>
    obtain ⟨hc, -⟩ := Ledger.allocate_ok ledger
    rw [hc]
    exact ⟨rfl, rfl⟩
  | returned size held ledger =>
    rw [ledger]
    simp only [Ledger.free, BlockCounts.free]
    omega

end Traffic

theorem Change.booked {h g : Heap κ} {a : Act} (c : Change h a g) (wf : h.WellFormed) (b : h.Booked) : g.Booked := by
  by_cases ha : a = .configure
  · subst ha
    obtain ⟨store, counts⟩ := c.configure_counts
    exact b.of_eq store counts
  · exact (c.traffic wf ha).booked b

theorem Change.peaks {h g : Heap κ} {a : Act} (c : Change h a g) (wf : h.WellFormed) (b : h.Booked) :
    g.ledger.counts.peakBlocks = max h.ledger.counts.peakBlocks g.ledger.counts.liveBlocks ∧
      g.ledger.counts.peakBytes = max h.ledger.counts.peakBytes g.ledger.counts.liveBytes := by
  by_cases ha : a = .configure
  · subst ha
    obtain ⟨-, counts⟩ := c.configure_counts
    have hblocks := b.blocks_le
    have hbytes := b.bytes_le
    rw [counts]
    omega
  · exact (c.traffic wf ha).peaks b

/-- **A step adds in words.** -/
theorem Change.bytes_mod {h g : Heap κ} {a : Act} (c : Change h a g) (wf : h.WellFormed)
    (exact : h.ledger.counts.liveBytes = h.heldBytes) (fits : h.FitsWord) :
    g.ledger.counts.liveBytes = g.heldBytes % UInt64.size := by
  by_cases ha : a = .configure
  · subst ha
    rw [c.configure_counts.2, exact, c.configure_heldBytes, Nat.mod_eq_of_lt fits]
  · exact (c.traffic wf ha).bytes_mod exact fits

theorem Trace.booked {h g : Heap κ} {acts : List Act} (t : Trace h acts g) (wf : h.WellFormed) (b : h.Booked) :
    g.Booked :=
  (t.induct (P := fun h => h.WellFormed ∧ h.Booked) (fun c ih => ⟨c.wellFormed ih.1, c.booked ih.1 ih.2⟩) ⟨wf, b⟩).2

/-! ### Peaks -/

/-- `top` is the highest level on the way from `h` by `acts` to `g`. -/
def IsPeak (level : Heap κ → Nat) (h : Heap κ) (acts : List Act) (g : Heap κ) (top : Nat) : Prop :=
  (∀ before after m, acts = before ++ after → Trace h before m → Trace m after g → level m ≤ top) ∧
    ∃ before after m, acts = before ++ after ∧ Trace h before m ∧ Trace m after g ∧ level m = top

section Mark

variable {level mark : Heap κ → Nat}
  (raised : ∀ {h : Heap κ} {a : Act} {g : Heap κ}, h.WellFormed → h.Booked → Change h a g →
    mark g = max (mark h) (level g))
  {h g : Heap κ} {acts : List Act}
include raised

/-- A mark that steps only raise does not fall along a trace. -/
theorem Trace.mark_le (t : Trace h acts g) (wf : h.WellFormed) (b : h.Booked) : mark h ≤ mark g := by
  induction t with
  | nil => exact Nat.le_refl _
  | cons c _ ih =>
    have hc := raised wf b c
    have hle := ih (c.wellFormed wf) (c.booked wf b)
    omega

/-- The level stays below the mark. -/
theorem Trace.level_le_mark (t : Trace h acts g) (wf : h.WellFormed) (b : h.Booked) (start : level h ≤ mark h) :
    level g ≤ mark g := by
  induction t with
  | nil => exact start
  | cons c _ ih =>
    have hc := raised wf b c
    exact ih (c.wellFormed wf) (c.booked wf b) (by omega)

/-- The mark is where it was, or it is the level of some heap on the way. -/
theorem Trace.mark_attained (t : Trace h acts g) (wf : h.WellFormed) (b : h.Booked) :
    mark g = mark h ∨ ∃ before after m, acts = before ++ after ∧ Trace h before m ∧ Trace m after g ∧
      level m = mark g := by
  induction t with
  | nil => exact Or.inl rfl
  | @cons h g h' a acts c t ih =>
    have hc := raised wf b c
    rcases ih (c.wellFormed wf) (c.booked wf b) with hm | ⟨before, after, m, rfl, tb, ta, hm⟩
    · by_cases hle : level g ≤ mark h
      · exact Or.inl (by omega)
      · exact Or.inr ⟨[a], acts, g, rfl, .single c, t, by omega⟩
    · exact Or.inr ⟨a :: before, after, m, rfl, .cons c tb, ta, hm⟩

/-- A mark that each step raises to the level after it is the highest level, if it was at the start. -/
theorem Trace.isPeak (t : Trace h acts g) (wf : h.WellFormed) (b : h.Booked) (start : mark h = level h) :
    IsPeak level h acts g (mark g) := by
  refine ⟨fun before after m _ tb ta => ?_, ?_⟩
  · have hm := tb.level_le_mark raised wf b (Nat.le_of_eq start.symm)
    have hg := ta.mark_le raised (tb.wellFormed wf) (tb.booked wf b)
    exact Nat.le_trans hm hg
  · rcases t.mark_attained raised wf b with hm | found
    · exact ⟨[], acts, h, rfl, .nil, t, start.symm.trans hm.symm⟩
    · exact found

end Mark

/-! ### The counts of a tracker -/

/-- A tracker that has been charged nothing. -/
def Tracker.New (t : Tracker) : Prop := t = .unmetered ∨ ∃ limits, t = .fresh limits

theorem Tracker.new_ofLimits (limits : Limits) : (Tracker.ofLimits limits).New := by
  unfold ofLimits
  split
  · exact Or.inl rfl
  · exact Or.inr ⟨limits, rfl⟩

/-- The sink may be replaced at any time, and the tracker by a new one where `idle` holds. -/
def Installs (idle : Heap κ → Prop) (h g : Heap κ) : Prop :=
  (∃ sink, g = h.withSink sink) ∨ ∃ t : Tracker, t.New ∧ idle h ∧ g = h.withTracker t

/-- A block fits the limits of a tracker that takes it. -/
theorem Tracker.allocate_metered {limits : Limits} {n m size : Nat} {t : Tracker}
    (h : (Tracker.metered limits n m).allocate size = .ok t) :
    t = .metered limits (n + 1) (Word.wrapAdd m size) ∧
      (∀ limit, limits.maxAllocations = some limit → n + 1 ≤ limit) ∧
      ∀ limit, limits.maxMemory = some limit → Word.wrapAdd m size ≤ limit := by
  unfold allocate at h
  simp only at h
  split at h
  · cases h
  · rename_i hr
    cases h
    unfold refusal? at hr
    split at hr
    · cases hr
    · rename_i ha
      have hm := Option.map_eq_none_iff.mp hr
      refine ⟨rfl, fun limit hl => ?_, fun limit hl => ?_⟩
      · rw [hl] at ha
        have : ¬ limit ≤ n := by simpa using ha
        omega
      · rw [hl] at hm
        have : ¬ limit < Word.wrapAdd m size := by simpa using hm
        omega

/-- A tracker that is unmetered stays so. -/
theorem Tracker.allocate_unmetered {size : Nat} {t : Tracker} (h : Tracker.unmetered.allocate size = .ok t) :
    t = .unmetered := by
  cases h
  rfl

namespace Heap

/-- The counts `n` and `m` of a tracker are at most what is held, and within its limits. -/
structure Within (h : Heap κ) (limits : Limits) (n m : Nat) : Prop where
  blocks : n ≤ h.ledger.counts.liveBlocks
  bytes : m ≤ h.heldBytes
  allocations : ∀ limit, limits.maxAllocations = some limit → n ≤ limit
  memory : ∀ limit, limits.maxMemory = some limit → m ≤ limit

/-- Whatever the tracker counts is within its limits. -/
def Budgeted (h : Heap κ) : Prop := ∀ limits n m, h.ledger.tracker = .metered limits n m → h.Within limits n m

/-- The tracker has counted what the ledger has. -/
def Charged (h : Heap κ) : Prop :=
  ∀ limits n m, h.ledger.tracker = .metered limits n m →
    n = h.ledger.counts.liveBlocks ∧ m = h.ledger.counts.liveBytes

variable {h : Heap κ}

theorem budgeted_of_new (new : h.ledger.tracker.New) : h.Budgeted := by
  intro limits n m ht
  rcases new with hn | ⟨limits', hn⟩ <;> rw [hn] at ht <;> cases ht
  exact ⟨Nat.zero_le _, Nat.zero_le _, fun _ _ => Nat.zero_le _, fun _ _ => Nat.zero_le _⟩

theorem charged_of_new (new : h.ledger.tracker.New) (blocks : h.ledger.counts.liveBlocks = 0)
    (bytes : h.ledger.counts.liveBytes = 0) : h.Charged := by
  intro limits n m ht
  rcases new with hn | ⟨limits', hn⟩ <;> rw [hn] at ht <;> cases ht
  exact ⟨blocks.symm, bytes.symm⟩

end Heap

namespace Traffic

variable {h g : Heap κ}

/-- The tracker a step leaves, if it is a metered one, was metered before with the same limits. -/
theorem tracker_cases (t : Traffic h g) {limits : Limits} {n m : Nat} (ht : g.ledger.tracker = .metered limits n m) :
    (h.ledger.tracker = .metered limits n m ∧ g.ledger.counts = h.ledger.counts ∧ g.heldBytes = h.heldBytes) ∨
    (∃ n' m' size, h.ledger.tracker = .metered limits n' m' ∧ n = n' + 1 ∧ m = Word.wrapAdd m' size ∧
      (∀ limit, limits.maxAllocations = some limit → n ≤ limit) ∧
      (∀ limit, limits.maxMemory = some limit → m ≤ limit) ∧ g.ledger.counts = h.ledger.counts.allocate size ∧
      g.heldBytes = h.heldBytes + size) ∨
    ∃ n' m' size, h.ledger.tracker = .metered limits n' m' ∧ n = n' - 1 ∧ m = m' - size ∧
      g.ledger.counts = h.ledger.counts.free size ∧ g.heldBytes + size = h.heldBytes := by
  cases t with
  | still held ledger =>
    rw [ledger] at ht ⊢
    exact Or.inl ⟨ht, rfl, held _⟩
  | charged size held ledger =>
    obtain ⟨hc, hl⟩ := Ledger.allocate_ok ledger
    rw [ht] at hl
    cases hh : h.ledger.tracker with
    | unmetered =>
      rw [hh] at hl
      cases Tracker.allocate_unmetered hl
    | metered limits' n' m' =>
      rw [hh] at hl
      obtain ⟨he, hn, hm⟩ := Tracker.allocate_metered hl
      cases he
      exact Or.inr (Or.inl ⟨n', m', size, rfl, rfl, rfl, hn, hm, hc, held _⟩)
  | returned size held ledger =>
    rw [ledger] at ht ⊢
    cases hh : h.ledger.tracker with
    | unmetered =>
      simp only [Ledger.free, hh] at ht
      cases ht
    | metered limits' n' m' =>
      simp only [Ledger.free, hh] at ht
      cases ht
      exact Or.inr (Or.inr ⟨n', m', size, rfl, rfl, rfl, rfl, held _⟩)

theorem budgeted (t : Traffic h g) (budgeted : h.Budgeted) : g.Budgeted := by
  intro limits n m ht
  rcases t.tracker_cases ht with ⟨hh, hc, held⟩ | ⟨n', m', size, hh, rfl, rfl, hn, hm, hc, held⟩ |
    ⟨n', m', size, hh, rfl, rfl, hc, held⟩
  · obtain ⟨blocks, bytes, allocations, memory⟩ := budgeted limits n m hh
    exact ⟨hc ▸ blocks, held ▸ bytes, allocations, memory⟩
  · obtain ⟨blocks, bytes, -, -⟩ := budgeted limits n' m' hh
    have hle := Word.wrapAdd_le m' size
    refine ⟨?_, by omega, hn, hm⟩
    rw [hc]
    exact Nat.succ_le_succ blocks
  · obtain ⟨blocks, bytes, allocations, memory⟩ := budgeted limits n' m' hh
    refine ⟨?_, by omega, fun limit hl => ?_, fun limit hl => ?_⟩
    · rw [hc]
      exact Nat.sub_le_sub_right blocks 1
    · exact Nat.le_trans (Nat.sub_le _ _) (allocations limit hl)
    · exact Nat.le_trans (Nat.sub_le _ _) (memory limit hl)

theorem charged_all (t : Traffic h g) (charged : h.Charged) : g.Charged := by
  intro limits n m ht
  rcases t.tracker_cases ht with ⟨hh, hc, -⟩ | ⟨n', m', size, hh, rfl, rfl, -, -, hc, -⟩ |
    ⟨n', m', size, hh, rfl, rfl, hc, -⟩
  · rw [hc]
    exact charged limits n m hh
  all_goals
    obtain ⟨blocks, bytes⟩ := charged limits n' m' hh
    rw [hc, blocks, bytes]
    exact ⟨rfl, rfl⟩

end Traffic

theorem Installs.change {idle : Heap κ → Prop} {h g : Heap κ} (installs : Installs idle h g) :
    Change h .configure g := by
  rcases installs with ⟨sink, rfl⟩ | ⟨tracker, -, -, rfl⟩
  · exact .withSink sink
  · exact .withTracker tracker

namespace Moment

variable {idle : Heap κ → Prop} {c : Config} {h : Heap κ}

/-- The moments of a run are those of a trace. -/
theorem exists_trace (moment : Moment (Installs idle) (.ofConfig c) h) : ∃ acts, Trace (.ofConfig c) acts h :=
  moment.exists_trace_of fun _ _ => Installs.change

theorem booked (moment : Moment (Installs idle) (.ofConfig c) h) : h.WellFormed ∧ h.Booked := by
  obtain ⟨acts, t⟩ := moment.exists_trace
  have wf := Heap.WellFormed.ofConfig (κ := κ) c
  exact ⟨t.wellFormed wf, t.booked wf (Heap.booked_ofConfig c)⟩

/-- Trackers that are new when they are installed stay within their budget. -/
theorem budgeted (moment : Moment (Installs idle) (.ofConfig c) h) : h.Budgeted := by
  induction moment with
  | start => exact Heap.budgeted_of_new (Tracker.new_ofLimits c.limits)
  | step before change ha ih => exact (change.traffic before.booked.1 ha).budgeted ih
  | configure _ allowed ih =>
    rcases allowed with ⟨sink, rfl⟩ | ⟨tracker, new, -, rfl⟩
    · intro limits n m ht
      obtain ⟨blocks, bytes, allocations, memory⟩ := ih limits n m ht
      exact ⟨blocks, bytes, allocations, memory⟩
    · exact Heap.budgeted_of_new new

/-- A tracker that was new when nothing was held has counted all that the ledger has. -/
theorem charged (moment : Moment (Installs fun h => h.ledger.counts.liveBlocks = 0) (.ofConfig c) h) : h.Charged := by
  induction moment with
  | start => exact Heap.charged_of_new (Tracker.new_ofLimits c.limits) rfl rfl
  | step before change ha ih => exact (change.traffic before.booked.1 ha).charged_all ih
  | configure before allowed ih =>
    rcases allowed with ⟨sink, rfl⟩ | ⟨tracker, new, none, rfl⟩
    · exact ih
    · have b := before.booked.2
      refine Heap.charged_of_new new none (Nat.le_zero.mp (Nat.le_trans b.bytes ?_))
      exact Nat.le_of_eq (Store.held_eq_zero (b.blocks.symm.trans none) _)

end Moment

/-- As long as no block has been returned, what is held fits if it does at the end. -/
theorem Moment.sustained_fitsWord {idle : Heap κ → Prop} {c : Config} {h : Heap κ}
    (moment : Moment (Installs idle) (.ofConfig c) h) (none : h.ledger.counts.totalFrees = 0) (fits : h.FitsWord) :
    Sustained Heap.FitsWord (Installs idle) (.ofConfig c) h := by
  induction moment with
  | start => exact .start fits
  | step before change ha ih =>
    rcases (change.traffic before.booked.1 ha).returns_or_grows with more | ⟨same, grows⟩
    · omega
    · exact (ih (same.symm.trans none) (Nat.lt_of_le_of_lt grows fits)).step change ha fits
  | configure _ allowed ih =>
    have counts := allowed.change.configure_counts.2
    have bytes := allowed.change.configure_heldBytes
    exact (ih (counts ▸ none) (Nat.lt_of_le_of_lt (Nat.le_of_eq bytes.symm) fits)).configure allowed fits

/-- **Bytes are counted exactly while they have fitted in a word.** -/
theorem Sustained.bytes_eq {c : Config} {allows : Heap κ → Heap κ → Prop} {h : Heap κ}
    (sustained : Sustained Heap.FitsWord allows (.ofConfig c) h)
    (configures : ∀ h g, allows h g → Change h .configure g) : h.ledger.counts.liveBytes = h.heldBytes := by
  have wf : ∀ {h}, Sustained Heap.FitsWord allows (.ofConfig c) h → h.WellFormed := by
    intro h before
    obtain ⟨acts, t⟩ := before.moment.exists_trace_of configures
    exact t.wellFormed (Heap.WellFormed.ofConfig c)
  induction sustained with
  | start _ => exact (Heap.held_ofConfig c _).symm
  | step before change _ fits ih => rw [change.bytes_mod (wf before) ih before.holds, Nat.mod_eq_of_lt fits]
  | configure before allowed fits ih =>
    rw [(configures _ _ allowed).bytes_mod (wf before) ih before.holds, Nat.mod_eq_of_lt fits]

/-! ### All counts of a run -/

/-- **The ledger is exact, whatever references are forged, as long as the bytes that are held fit in a
word.** Blocks are counted exactly after each single step, and each peak is the highest count on the way.
Bytes are counted exactly up to the first step with which they exceed a word, and modulo the word after it.
The counts of new trackers are at most what is held and within their limits; they are the ledger's if each
tracker was installed while no block was held. -/
theorem accounts_exact (host : Host κ) (c : Config) :
    (∀ {h : Heap κ}, Reached host (.ofConfig c) h → ∃ acts, Trace (.ofConfig c) acts h) ∧
    (∀ {h : Heap κ} {acts : List Act}, Trace (.ofConfig c) acts h →
      h.ledger.counts.liveBlocks = h.heldBlocks ∧ h.ledger.counts.liveBytes ≤ h.heldBytes ∧
      h.ledger.counts.liveBlocks + h.ledger.counts.totalFrees = h.ledger.counts.totalAllocations ∧
      IsPeak (·.ledger.counts.liveBlocks) (.ofConfig c) acts h h.ledger.counts.peakBlocks ∧
      IsPeak (·.ledger.counts.liveBytes) (.ofConfig c) acts h h.ledger.counts.peakBytes ∧
      ∀ r o, h.object? r = some o → o.immortal = false → 1 ≤ h.ledger.counts.liveBlocks) ∧
    (∀ {h : Heap κ}, Sustained Heap.FitsWord (Change · .configure ·) (.ofConfig c) h →
      h.ledger.counts.liveBytes = h.heldBytes ∧
      (∀ r o, h.object? r = some o → o.immortal = false → o.size ≤ h.ledger.counts.liveBytes) ∧
      ∀ {a : Act} {g : Heap κ}, Change h a g → g.ledger.counts.liveBytes = g.heldBytes % UInt64.size) ∧
    (∀ {idle : Heap κ → Prop} {h g : Heap κ} (r : Request κ) {x : r.Answer}, host.perform r h = .ok (x, g) →
      (Moment (Installs idle) (.ofConfig c) h → Moment (Installs idle) (.ofConfig c) g) ∧
      (Sustained Heap.FitsWord (Installs idle) (.ofConfig c) h →
        Sustained Heap.FitsWord (Installs idle) (.ofConfig c) g ∨
          Sustained.Lapses Heap.FitsWord (Installs idle) (.ofConfig c) h g)) ∧
    (∀ {h : Heap κ} {limits : Limits} {n m : Nat}, Moment (Installs fun _ => True) (.ofConfig c) h →
      h.ledger.tracker = .metered limits n m →
      n ≤ h.ledger.counts.liveBlocks ∧ m ≤ h.heldBytes ∧
      (Sustained Heap.FitsWord (Installs fun _ => True) (.ofConfig c) h → m ≤ h.ledger.counts.liveBytes) ∧
      (∀ limit, limits.maxAllocations = some limit → n ≤ limit) ∧
      ∀ limit, limits.maxMemory = some limit → m ≤ limit) ∧
    ∀ {h : Heap κ} {limits : Limits} {n m : Nat},
      Moment (Installs fun h => h.ledger.counts.liveBlocks = 0) (.ofConfig c) h →
      h.ledger.tracker = .metered limits n m →
      n = h.ledger.counts.liveBlocks ∧ m = h.ledger.counts.liveBytes ∧
      ∀ r o, h.object? r = some o → o.immortal = false → 1 ≤ n ∧
        (Sustained Heap.FitsWord (Installs fun h => h.ledger.counts.liveBlocks = 0) (.ofConfig c) h → o.size ≤ m) := by
  refine ⟨fun reached => reached.evolves, fun t => ?_, fun sustained => ?_,
    fun r _ done => ⟨fun moment => moment.perform host r done, fun sustained => sustained.perform host r done⟩,
    fun moment ht => ?_, fun moment ht => ?_⟩
  · have wf := Heap.WellFormed.ofConfig (κ := κ) c
    have start := Heap.booked_ofConfig (κ := κ) c
    have b := t.booked wf start
    refine ⟨b.blocks.trans (Slot.sum_held_one _), b.bytes, b.balance, ?_, ?_,
      fun r o live mortal => b.covers live mortal⟩
    · exact t.isPeak (fun wf b change => (change.peaks wf b).1) wf start rfl
    · exact t.isPeak (fun wf b change => (change.peaks wf b).2) wf start rfl
  · have exact := sustained.bytes_eq fun _ _ => id
    obtain ⟨acts, t⟩ := sustained.moment.exists_trace_of fun _ _ => id
    refine ⟨exact, fun r o live mortal => ?_, fun change => ?_⟩
    · rw [exact]
      exact Heap.size_le_heldBytes live mortal
    · exact change.bytes_mod (t.wellFormed (Heap.WellFormed.ofConfig c)) exact sustained.holds
  · obtain ⟨blocks, bytes, allocations, memory⟩ := moment.budgeted _ _ _ ht
    refine ⟨blocks, bytes, fun sustained => ?_, allocations, memory⟩
    rw [sustained.bytes_eq fun _ _ => Installs.change]
    exact bytes
  · obtain ⟨rfl, rfl⟩ := moment.charged _ _ _ ht
    refine ⟨rfl, rfl, fun r o live mortal => ⟨moment.booked.2.covers live mortal, fun sustained => ?_⟩⟩
    rw [sustained.bytes_eq fun _ _ => Installs.change]
    exact Heap.size_le_heldBytes live mortal

/-- Room for three blocks. -/
def tightConfig : Config := { limits := { maxAllocations := some 3, maxMemory := some 100 }, shortRange := ⟨0, 0⟩ }

/-- A short is parked, a tuple takes over another one, a reference that names nothing is
given back, the parked block is used again, a fourth block is refused, and the tuple
goes with its item, whose block is parked. -/
def tightRequests : List (Request Stock.Name) :=
  [.short 300, .short 301, .release ⟨3⟩, .tuple [⟨4⟩], .release ⟨9⟩, .short 302, .short 303, .release ⟨5⟩]

/-- Of two shorts one is parked. -/
def parkingRequests : List (Request Stock.Name) := [.short 300, .short 301, .release ⟨3⟩]

/-- Of three blocks one was returned; of the two that are left, one is parked. And of two blocks that have fitted
in a word all along, the bytes are counted as well. -/
theorem accounts_exact_tight :
    (∃ (h : Heap Stock.Name) (acts : List Act),
      Reached (Stock.host 8) (.ofConfig tightConfig) h ∧ Trace (.ofConfig tightConfig) acts h ∧ h.violations = 1 ∧
      h.ledger.tracker = .metered tightConfig.limits 2 32 ∧ h.ledger.counts.peakBlocks = 3 ∧ h.heldBlocks = 2 ∧
      IsPeak (·.ledger.counts.liveBlocks) (.ofConfig tightConfig) acts h 3 ∧
      Moment (Installs fun h => h.ledger.counts.liveBlocks = 0) (.ofConfig tightConfig) h ∧
      h.ledger.counts.liveBlocks = 2 ∧ h.ledger.counts.liveBytes = 32) ∧
    ∃ h : Heap Stock.Name, Sustained Heap.FitsWord (Change · .configure ·) (.ofConfig tightConfig) h ∧
      h.heldBytes = 32 ∧ h.ledger.counts.liveBytes = 32 := by
  obtain ⟨traced, counted, summed, -, -, charged⟩ := accounts_exact (Stock.host 8) tightConfig
  constructor
  · have hrun : (((Stock.host 8).performAll tightRequests (.ofConfig tightConfig)).toOption).map
        (fun h => (h.violations, h.ledger.tracker, h.ledger.counts.peakBlocks)) =
          some (1, .metered tightConfig.limits 2 32, 3) := by decide +kernel
    obtain ⟨h, hp, hsee⟩ := Reached.of_performAll _ hrun
    obtain ⟨hv, ht, hpeak⟩ : h.violations = 1 ∧ h.ledger.tracker = .metered tightConfig.limits 2 32 ∧
        h.ledger.counts.peakBlocks = 3 := by simpa using hsee
    have reached : Reached (Stock.host 8) (.ofConfig tightConfig) h := .performAll .start hp
    have moment : Moment (Installs fun h => h.ledger.counts.liveBlocks = 0) (.ofConfig tightConfig) h :=
      Moment.performAll (Stock.host 8) .start hp
    obtain ⟨acts, t⟩ := traced reached
    obtain ⟨blocks, -, -, peak, -⟩ := counted t
    obtain ⟨hblocks, hbytes, -⟩ := charged moment ht
    exact ⟨h, acts, reached, t, hv, ht, hpeak, blocks.symm.trans hblocks.symm, hpeak ▸ peak, moment, hblocks.symm,
      hbytes.symm⟩
  · have hrun : (((Stock.host 8).performAll parkingRequests (.ofConfig tightConfig)).toOption).map
        (fun h => (h.ledger.counts.totalFrees, h.heldBytes)) = some (0, 32) := by decide +kernel
    obtain ⟨h, hp, hsee⟩ := Reached.of_performAll _ hrun
    obtain ⟨frees, bytes⟩ : h.ledger.counts.totalFrees = 0 ∧ h.heldBytes = 32 := by simpa using hsee
    have moment : Moment (Installs fun _ => False) (.ofConfig tightConfig) h :=
      Moment.performAll (Stock.host 8) .start hp
    have fits : h.FitsWord := by
      unfold Heap.FitsWord
      rw [bytes]
      decide
    have sustained := (moment.sustained_fitsWord frees fits).mono (fun _ => id) fun _ _ => Installs.change
    exact ⟨h, sustained, bytes, (summed sustained).1.trans bytes⟩

/-- Two objects of half a word each, of which one is given back. -/
def wideRequests : List (Request Stock.Name) :=
  [.register { name := "wide", basicSize := 9223372036854775808 }, .allocate ⟨4⟩ 1, .allocate ⟨4⟩ 2, .release ⟨3⟩]

/-- With the second of them the sum leaves the word, and from then on bytes are missing: those of the object
that is left are not counted, and they were never part of a peak. -/
theorem accounts_carry_lost : ∃ h : Heap Stock.Name, Reached (Stock.host 8) (.ofConfig { shortRange := ⟨0, 0⟩ }) h ∧
    h.heldBlocks = 1 ∧ h.heldBytes = 9223372036854775808 ∧ h.ledger.counts.liveBlocks = 1 ∧
    h.ledger.counts.liveBytes = 0 ∧ h.ledger.counts.peakBytes = 9223372036854775808 := by
  have hrun : (((Stock.host 8).performAll wideRequests (.ofConfig { shortRange := ⟨0, 0⟩ })).toOption).map
      (fun h => (h.heldBlocks, h.heldBytes, h.ledger.counts.liveBlocks, h.ledger.counts.liveBytes,
        h.ledger.counts.peakBytes)) = some (1, 9223372036854775808, 1, 0, 9223372036854775808) := by decide +kernel
  obtain ⟨h, hp, hsee⟩ := Reached.of_performAll _ hrun
  exact ⟨h, .performAll .start hp, by simpa using hsee⟩

end CountedHeap
