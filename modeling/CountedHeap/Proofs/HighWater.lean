/-
# A heap holds no more than was needed at once

A heap takes a new slot only if no slot is vacant, and a fresh block only if none of
its size is parked. From the first it follows that beside the interned objects the
arena has as many slots as there were blocks at once at most (`Change.tight`). From
the second it follows that of each size it never holds more blocks, parked ones
included, than there were objects of that size at some moment before
(`Trace.heldOf_le`): between two fresh blocks of a size the blocks of that size only
change between live and parked, or go.

A vacant slot is of no size, so a slot may hold blocks of many sizes one after the
other; that is why the first is about all blocks and the second about one size.

Key definitions: `Store.living`, `Heap.Tight`.
Key theorems: `arena_at_high_water`, `pools_within_need`.
-/
import CountedHeap.Proofs.Accounts

namespace CountedHeap

variable {κ : Role → Type}

/-! ### Slots and blocks -/

theorem Slot.countP_isLive : ∀ l : List Slot, l.countP isLive = l.countP isImmortal + l.countP isMortal
  | [] => rfl
  | slot :: l => by
    have ih := countP_isLive l
    simp only [List.countP_cons]
    cases slot with
    | vacant | parked => simpa [isLive, isImmortal, isMortal, object?] using ih
    | live o =>
      cases hi : o.immortal <;> simp [isLive, isImmortal, isMortal, object?, hi] <;> omega

/-- The slots are those of the interned objects, those of the blocks that are held, and
the vacant ones. -/
theorem Heap.WellFormed.size_eq {h : Heap κ} (wf : h.WellFormed) :
    h.store.slots.size = h.interned.count + (h.store.held fun _ => 1) + h.store.vacant.length := by
  obtain ⟨chain, hf⟩ := wf.store
  have hlive := Slot.countP_isLive h.store.slots.toList
  have hkinds := Slot.countP_kinds h.store.slots.toList
  have hheld : (h.store.held fun _ => 1) = _ := Slot.sum_held_one h.store.slots.toList
  have himmortal : h.store.slots.toList.countP Slot.isImmortal = h.interned.count := by
    rw [← wf.snapshot_immortal]
    show _ = (h.liveObjects.filter (·.immortal)).length
    rw [← List.countP_eq_length_filter, liveObjects, List.countP_filterMap]
    refine List.countP_congr fun slot _ => ?_
    cases slot <;> simp [Slot.object?, Slot.isImmortal]
  rw [hf.vacant_length, hheld, ← Array.length_toList]
  omega

/-- If no slot is on the vacant list, each is live or parked. -/
theorem Store.Formed.full {s : Store} {chain : Nat → List Ref} (f : s.Formed chain) (none : s.vacant = [])
    {slot : Slot} (hin : slot ∈ s.slots) : slot.isLive = true ∨ slot.isParked = true := by
  cases slot with
  | live o => exact Or.inl rfl
  | parked next size => exact Or.inr rfl
  | vacant =>
    obtain ⟨i, hi, hs⟩ := Array.mem_iff_getElem.mp hin
    have hr : (⟨i⟩ : Ref) ∈ s.vacant := (f.mem_vacant ⟨i⟩).mpr (by rw [Array.getElem?_eq_getElem hi, hs])
    rw [none] at hr
    cases hr

/-! ### The arena -/

/-- Beside the interned objects there are as many slots as blocks were held at once at most. -/
def Heap.Tight (h : Heap κ) : Prop := h.store.slots.size = h.interned.count + h.ledger.counts.peakBlocks

theorem Heap.tight_ofConfig (c : Config) : (Heap.ofConfig c : Heap κ).Tight := Interned.slots_size _

namespace Change

variable {h g : Heap κ} {a : Act}

/-- A step adds a slot only if no slot is vacant. -/
theorem size_cases (c : Change h a g) : g.store.slots.size = h.store.slots.size ∨
    g.store.slots.size = h.store.slots.size + 1 ∧ h.store.vacant = [] ∧ g.store.vacant = [] := by
  cases c with
  | acquire | drop => exact Or.inl (Array.size_setIfInBounds ..)
  | @bury r o _ =>
    left
    rcases Heap.bury_cases h r o with ⟨k, -, -, he⟩ | he <;> rw [he] <;> exact Array.size_setIfInBounds ..
  | make found fits taken =>
    rcases Heap.takeBlock_cases taken with ⟨k, next, n, -, -, -, rfl⟩ | ⟨ledger, -, -, rfl, rfl⟩
    · exact Or.inl (Array.size_setIfInBounds ..)
    · have hput : ∀ (s : Store) (slot : Slot), (s.put h.store.freshRef slot).slots.size = s.slots.size :=
        fun s slot => Array.size_setIfInBounds ..
      show (h.store.takeFresh.put _ _).slots.size = _ ∨ (h.store.takeFresh.put _ _).slots.size = _ ∧ _ ∧
        h.store.takeFresh.vacant = []
      rw [hput]
      unfold Store.takeFresh
      cases hv : h.store.vacant with
      | nil => exact Or.inr ⟨Array.size_push .., rfl, rfl⟩
      | cons r rest => exact Or.inl rfl
  | hit | dispatch | skip | register | setDepth | withTracker | withSink => exact Or.inl rfl

/-- **A step keeps the arena as small as it can be.** -/
theorem tight (c : Change h a g) (wf : h.WellFormed) (b : h.Booked) (tight : h.Tight) : g.Tight := by
  have hsize := (c.wellFormed wf).size_eq
  have hblocks := (c.booked wf b).blocks
  have hpeak := (c.peaks wf b).1
  have hcount := c.layout.1
  unfold Heap.Tight at tight ⊢
  rw [hcount] at hsize ⊢
  rcases c.size_cases with same | ⟨more, -, none⟩
  · -- what is held fits in the slots that there were, so the peak is not passed
    omega
  · -- no slot is vacant after the step either, so all of them are held
    rw [none, List.length_nil] at hsize
    omega

end Change

theorem Trace.tight {h g : Heap κ} {acts : List Act} (t : Trace h acts g) (wf : h.WellFormed) (b : h.Booked)
    (start : h.Tight) : g.Tight :=
  (t.induct (P := fun h => h.WellFormed ∧ h.Booked ∧ h.Tight)
    (fun c ih => ⟨c.wellFormed ih.1, c.booked ih.1 ih.2.1, c.tight ih.1 ih.2.1 ih.2.2⟩) ⟨wf, b, start⟩).2.2

/-! ### The blocks of one size -/

namespace Slot

/-- Whether the slot holds an object of `size` bytes that can die. -/
def isMortalOf (size : Nat) : Slot → Bool
  | .live o => !o.immortal && o.size == size
  | _ => false

/-- Whether the slot holds a parked block of `size` bytes. -/
def isParkedOf (size : Nat) : Slot → Bool
  | .parked _ n => n == size
  | _ => false

theorem sum_held_of (size : Nat) (l : List Slot) : (l.map (held fun n => if n = size then 1 else 0)).sum =
    l.countP (isMortalOf size) + l.countP (isParkedOf size) := by
  refine sum_map_eq_countP (fun slot => ?_) l
  cases slot with
  | vacant => rfl
  | parked next n => by_cases hn : n = size <;> simp [held, isMortalOf, isParkedOf, hn, beq_false_of_ne]
  | live o =>
    cases hi : o.immortal
    · by_cases hn : o.size = size <;> simp [held, isMortalOf, isParkedOf, hi, hn, beq_false_of_ne]
    · simp [held, isMortalOf, isParkedOf, hi]

end Slot

namespace Store

/-- Number of objects of `size` bytes that can die. -/
def living (s : Store) (size : Nat) : Nat := s.slots.toList.countP (Slot.isMortalOf size)

/-- Number of blocks of `size` bytes that are held. -/
def heldOf (s : Store) (size : Nat) : Nat := s.held fun n => if n = size then 1 else 0

theorem held_add (s : Store) (v w : Nat → Nat) : (s.held fun n => v n + w n) = s.held v + s.held w := by
  unfold held
  rw [← List.sum_map_add]
  refine congrArg List.sum (List.map_congr_left fun slot _ => ?_)
  cases slot with
  | vacant | parked => rfl
  | live o => cases hi : o.immortal <;> simp [Slot.held, hi]

/-- The blocks that are held are those of one size and the others. -/
theorem held_one (s : Store) (size : Nat) :
    (s.held fun _ => 1) = s.heldOf size + s.held fun n => if n = size then 0 else 1 := by
  unfold heldOf
  rw [← held_add]
  congr 1
  funext n
  by_cases hn : n = size <;> simp [hn]

variable {s : Store} {chain : Nat → List Ref}

/-- A class is as long as there are parked blocks of its size. -/
theorem Formed.parkedOf_eq (f : Formed s chain) (size : Nat) :
    s.parkedOf size = s.slots.toList.countP (Slot.isParkedOf size) := by
  have parked : ∀ slot : Slot, slot.isParkedOf size = true → ∃ next, slot = .parked next size := by
    intro slot hp
    cases slot with
    | parked next n => exact ⟨next, by rw [beq_iff_eq.mp hp]⟩
    | vacant | live => cases hp
  unfold parkedOf
  cases hc : s.sizeClass? size with
  | some c =>
    obtain ⟨hmem, rfl⟩ := sizeClass?_mem hc
    show c.length = _
    rw [← f.length c hmem]
    refine length_eq_countP (f.nodup c hmem) fun r => ⟨fun hr => ?_, ?_⟩
    · obtain ⟨next, hs⟩ := (f.linked c hmem).parked r hr
      exact ⟨_, hs, beq_self_eq_true _⟩
    · rintro ⟨slot, hs, hp⟩
      obtain ⟨next, rfl⟩ := parked slot hp
      exact (f.covered r next c.size hs).1
  | none =>
    symm
    rw [Option.elim_none, List.countP_eq_zero]
    intro slot hin hp
    obtain ⟨next, rfl⟩ := parked slot hp
    obtain ⟨i, hi, hs⟩ := List.mem_iff_getElem.mp hin
    have hs : s.slots[(⟨i⟩ : Ref).index]? = some (.parked next size) := by
      rw [← Array.getElem?_toList, List.getElem?_eq_getElem hi, hs]
    obtain ⟨c, hmem, hsize⟩ := List.mem_map.mp (f.covered ⟨i⟩ next size hs).2
    exact List.find?_eq_none.mp hc c hmem (decide_eq_true hsize)

theorem Formed.heldOf_eq (f : Formed s chain) (size : Nat) : s.heldOf size = s.living size + s.parkedOf size := by
  rw [f.parkedOf_eq]
  exact Slot.sum_held_of size _

/-- A class that has no block to give is empty. -/
theorem Formed.parkedOf_eq_zero (f : Formed s chain) {size : Nat} (none : s.takeParked size = .ok none) :
    s.parkedOf size = 0 := by
  unfold parkedOf
  cases hc : s.sizeClass? size with
  | none => rfl
  | some c =>
    obtain ⟨hmem, rfl⟩ := sizeClass?_mem hc
    have hl := f.linked c hmem
    show c.length = 0
    rw [← f.length c hmem]
    cases hchain : chain c.size with
    | nil => rfl
    | cons r rest =>
      -- then the class has its first block to give
      rw [hchain] at hl
      obtain ⟨hhead, next, hs, -⟩ := hl
      obtain ⟨size, head, length⟩ := c
      cases hhead
      simp [takeParked, hc, hs] at none

end Store

namespace Change

variable {h g : Heap κ} {a : Act}

/-- A block is charged only for a new object, and only if none of its size is parked. -/
theorem charged_cases (c : Change h a g) (wf : h.WellFormed)
    (charged : g.ledger.counts.totalAllocations ≠ h.ledger.counts.totalAllocations) :
    ∃ r new, a = .make r new ∧ (∀ weigh, g.store.held weigh = h.store.held weigh + weigh new.size) ∧
      g.store.parkedOf new.size = 0 := by
  cases c with
  | @bury r o _ =>
    rcases Heap.bury_cases h r o with ⟨k, -, -, he⟩ | he <;> rw [he] at charged <;> exact absurd rfl charged
  | @make g r _ d payload found fits taken =>
    rcases make_cases wf taken with ⟨-, ledger⟩ | ⟨held, -, none, classes⟩
    · exact absurd (congrArg (·.counts.totalAllocations) ledger) charged
    · obtain ⟨chain, hf⟩ := wf.store
      refine ⟨_, _, rfl, held, ?_⟩
      rw [← hf.parkedOf_eq_zero none]
      show g.store.parkedOf (d.blockSize payload.children.length) = _
      unfold Store.parkedOf Store.sizeClass?
      rw [classes]
  | acquire | drop | hit | dispatch | skip | register | setDepth | withTracker | withSink => exact absurd rfl charged

/-- A step adds a block only for a new object, and only if none of its size is parked. -/
theorem held_cases (c : Change h a g) (wf : h.WellFormed) :
    (∀ weigh, g.store.held weigh ≤ h.store.held weigh) ∨
    ∃ r new, a = .make r new ∧ (∀ weigh, g.store.held weigh = h.store.held weigh + weigh new.size) ∧
      g.store.parkedOf new.size = 0 := by
  by_cases ha : a = .configure
  · subst ha
    exact Or.inl fun weigh => Nat.le_of_eq (congrArg (Store.held · weigh) c.configure_counts.1)
  cases c.traffic wf ha with
  | still held _ => exact Or.inl fun weigh => Nat.le_of_eq (held weigh)
  | returned size held _ =>
    left
    intro weigh
    have := held weigh
    omega
  | charged size held ledger =>
    exact Or.inr (c.charged_cases wf (by rw [(Ledger.allocate_ok ledger).1]; exact Nat.succ_ne_self _))

/-- After a step there are no more blocks of a size than before it, or just the objects. -/
theorem heldOf_cases (c : Change h a g) (wf : h.WellFormed) (size : Nat) :
    g.store.heldOf size ≤ h.store.heldOf size ∨
    ∃ r new, a = .make r new ∧ g.store.heldOf size = g.store.living size := by
  rcases c.held_cases wf with fewer | ⟨r, new, rfl, held, none⟩
  · exact Or.inl (fewer _)
  by_cases hs : new.size = size
  · subst hs
    obtain ⟨chain, hf⟩ := (c.wellFormed wf).store
    exact Or.inr ⟨r, new, rfl, by rw [hf.heldOf_eq, none, Nat.add_zero]⟩
  · left
    have hheld := held fun n => if n = size then 1 else 0
    rw [if_neg hs, Nat.add_zero] at hheld
    exact Nat.le_of_eq hheld

end Change

namespace Trace

variable {h g : Heap κ} {acts : List Act}

/-- **Of each size no more blocks are held than there were objects after some new one
had been made**, or than were held at the start. -/
theorem heldOf_le (t : Trace h acts g) (wf : h.WellFormed) (size : Nat) :
    g.store.heldOf size ≤ h.store.heldOf size ∨
    ∃ before r new after m, acts = before ++ .make r new :: after ∧ Trace h (before ++ [.make r new]) m ∧
      Trace m after g ∧ g.store.heldOf size ≤ m.store.living size := by
  induction t with
  | nil => exact Or.inl (Nat.le_refl _)
  | @cons h g h' a acts c t ih =>
    rcases ih (c.wellFormed wf) with last | ⟨before, r, new, after, m, rfl, tb, ta, hm⟩
    · rcases c.heldOf_cases wf size with first | ⟨r, new, rfl, first⟩
      · exact Or.inl (Nat.le_trans last first)
      · exact Or.inr ⟨[], r, new, acts, g, rfl, .single c, t, Nat.le_trans last (Nat.le_of_eq first)⟩
    · exact Or.inr ⟨a :: before, r, new, after, m, rfl, .cons c tb, ta, hm⟩

/-- If all new objects have blocks of one size, all blocks that come have. -/
theorem held_others (t : Trace h acts g) (wf : h.WellFormed) {size : Nat}
    (sized : ∀ r new, .make r new ∈ acts → new.size = size) {weigh : Nat → Nat} (hw : weigh size = 0) :
    g.store.held weigh ≤ h.store.held weigh := by
  induction t with
  | nil => exact Nat.le_refl _
  | cons c _ ih =>
    have last := ih (c.wellFormed wf) fun r new hin => sized r new (List.mem_cons_of_mem _ hin)
    rcases c.held_cases wf with fewer | ⟨r, new, rfl, held, -⟩
    · exact Nat.le_trans last (fewer weigh)
    · have first := held weigh
      rw [sized r new List.mem_cons_self, hw, Nat.add_zero] at first
      exact Nat.le_trans last (Nat.le_of_eq first)

variable {c : Config}

theorem living_le (t : Trace (.ofConfig c) acts h) (size : Nat) :
    h.store.living size ≤ h.ledger.counts.liveBlocks := by
  have wf := Heap.WellFormed.ofConfig (κ := κ) c
  obtain ⟨chain, hf⟩ := (t.wellFormed wf).store
  have hblocks := (t.booked wf (Heap.booked_ofConfig c)).blocks
  rw [h.store.held_one size, hf.heldOf_eq] at hblocks
  omega

/-- If all new objects have blocks of one size, only blocks of that size are held. -/
theorem liveBlocks_eq (t : Trace (.ofConfig c) acts h) {size : Nat}
    (sized : ∀ r new, .make r new ∈ acts → new.size = size) : h.ledger.counts.liveBlocks = h.store.heldOf size := by
  have wf := Heap.WellFormed.ofConfig (κ := κ) c
  have hblocks := (t.booked wf (Heap.booked_ofConfig c)).blocks
  have others : (h.store.held fun n => if n = size then 0 else 1) ≤ _ := t.held_others wf sized (if_pos rfl)
  rw [Heap.held_ofConfig] at others
  rw [h.store.held_one size] at hblocks
  omega

/-- If all new objects have blocks of one size, the peak of the blocks is that of the objects. -/
theorem isPeak_living (t : Trace (.ofConfig c) acts h) {size : Nat}
    (sized : ∀ r new, .make r new ∈ acts → new.size = size) :
    IsPeak (·.store.living size) (.ofConfig c) acts h h.ledger.counts.peakBlocks := by
  have wf := Heap.WellFormed.ofConfig (κ := κ) c
  have blocks : IsPeak (·.ledger.counts.liveBlocks) (.ofConfig c) acts h h.ledger.counts.peakBlocks :=
    t.isPeak (fun wf b change => (change.peaks wf b).1) wf (Heap.booked_ofConfig c) rfl
  obtain ⟨below, before, after, m, rfl, tb, ta, hm⟩ := blocks
  refine ⟨fun before' after' m' he tb' ta' => Nat.le_trans (tb'.living_le size) (below before' after' m' he tb' ta'), ?_⟩
  have hheld := tb.liveBlocks_eq fun r new hin => sized r new (List.mem_append_left _ hin)
  change m.ledger.counts.liveBlocks = _ at hm
  rcases tb.heldOf_le wf size with none | ⟨before', r, new, after', m', rfl, tb', ta', hle⟩
  · -- nothing was ever held
    have hstart : (Heap.ofConfig c : Heap κ).store.heldOf size = 0 := Heap.held_ofConfig c _
    have hle := tb.living_le size
    exact ⟨before, after, m, rfl, tb, ta, by show m.store.living size = _; omega⟩
  · -- the peak of the blocks is at most what lived at an earlier moment, which is a block each
    have hsplit : (before' ++ .make r new :: after') ++ after = (before' ++ [.make r new]) ++ (after' ++ after) := by
      simp
    have hpeak := below _ _ m' hsplit tb' (ta'.append ta)
    change m'.ledger.counts.liveBlocks ≤ _ at hpeak
    have hliving := tb'.living_le size
    exact ⟨_, _, m', hsplit, tb', ta'.append ta, by show m'.store.living size = _; omega⟩

end Trace

/-! ### Whole runs -/

/-- **The arena never outgrows the most blocks that were held at once.** A run is a trace
of single steps, and after each of them there are as many slots as interned objects and
blocks at the peak together. So a step adds at most one slot, and only if every slot is
live or parked. -/
theorem arena_at_high_water (host : Host κ) (c : Config) :
    (∀ {h : Heap κ}, Reached host (.ofConfig c) h → ∃ acts, Trace (.ofConfig c) acts h) ∧
    ∀ {h : Heap κ} {acts : List Act}, Trace (.ofConfig c) acts h →
      h.snapshot.totalSlots = h.snapshot.immortalObjects + h.ledger.counts.peakBlocks ∧
      h.snapshot.immortalObjects = 3 + c.internedRange.count ∧
      ∀ {a : Act} {g : Heap κ}, Change h a g → g.snapshot.totalSlots ≠ h.snapshot.totalSlots →
        g.snapshot.totalSlots = h.snapshot.totalSlots + 1 ∧
        ∀ slot ∈ h.store.slots, slot.isLive = true ∨ slot.isParked = true := by
  refine ⟨fun reached => reached.evolves, fun t => ?_⟩
  have wf := t.wellFormed (Heap.WellFormed.ofConfig c)
  have immortal := wf.snapshot_immortal
  refine ⟨?_, ?_, fun change grown => ?_⟩
  · rw [immortal]
    exact t.tight (Heap.WellFormed.ofConfig c) (Heap.booked_ofConfig c) (Heap.tight_ofConfig c)
  · rw [immortal, t.interned]
    rfl
  · rcases change.size_cases with same | ⟨more, none, -⟩
    · exact absurd same grown
    · obtain ⟨chain, hf⟩ := wf.store
      exact ⟨more, fun slot hin => hf.full none hin⟩

/-- The heap of `tightConfig`, with all that is in it written out. -/
def tightHeap : Heap Stock.Name where
  store :=
    { slots := #[Interned.immortal .none .none, Interned.immortal .bool (.bool false),
        Interned.immortal .bool (.bool true)]
      classes := [{ size := 16 }, { size := 24 }] }
  ledger := { tracker := .fresh tightConfig.limits }
  interned := ⟨⟨0, 0⟩⟩
  types := .builtin

theorem ofConfig_tightConfig : Heap.ofConfig tightConfig = tightHeap := by
  have hslots : (Interned.mk ⟨0, 0⟩).slots = #[Interned.immortal .none .none, Interned.immortal .bool (.bool false),
      Interned.immortal .bool (.bool true)] := by decide +kernel
  unfold tightHeap
  rw [← hslots]
  rfl

/-- A short, as it is made where it is not interned. -/
def madeShort (value : Int32) : Object := .fresh .short (Registry.shortType (κ := Stock.Name)) (.short value)

/-- Three blocks were held at once, beside three interned objects. At the start there was no
slot for the first of them. -/
theorem arena_at_high_water_tight :
    (∃ (h : Heap Stock.Name) (acts : List Act), Reached (Stock.host 8) (.ofConfig tightConfig) h ∧
      Trace (.ofConfig tightConfig) acts h ∧ h.ledger.counts.liveBlocks = 2 ∧ h.ledger.counts.peakBlocks = 3 ∧
      h.snapshot.immortalObjects = 3 ∧ h.snapshot.totalSlots = 6) ∧
    ∃ g : Heap Stock.Name, Change (.ofConfig tightConfig) (.make ⟨3⟩ (madeShort 300)) g ∧
      g.snapshot.totalSlots = (Heap.ofConfig tightConfig : Heap Stock.Name).snapshot.totalSlots + 1 ∧
      ∀ slot ∈ (Heap.ofConfig tightConfig : Heap Stock.Name).store.slots, slot.isLive = true ∨ slot.isParked = true := by
  obtain ⟨traced, counted⟩ := arena_at_high_water (Stock.host 8) tightConfig
  constructor
  · have hrun : (((Stock.host 8).performAll tightRequests (.ofConfig tightConfig)).toOption).map
        (fun h => (h.ledger.counts.liveBlocks, h.ledger.counts.peakBlocks)) = some (2, 3) := by decide +kernel
    obtain ⟨h, hp, hsee⟩ := Reached.of_performAll _ hrun
    obtain ⟨hlive, hpeak⟩ := Prod.mk.inj hsee
    have reached : Reached (Stock.host 8) (.ofConfig tightConfig) h := .performAll .start hp
    obtain ⟨acts, t⟩ := traced reached
    obtain ⟨slots, immortal, -⟩ := counted t
    have hcount : tightConfig.internedRange.count = 0 := by decide +kernel
    rw [hcount] at immortal
    rw [immortal, hpeak] at slots
    exact ⟨h, acts, reached, t, hlive, hpeak, immortal, slots⟩
  · obtain ⟨-, -, grows⟩ := counted .nil
    rw [ofConfig_tightConfig] at grows ⊢
    have change : Change tightHeap (.make ⟨3⟩ (madeShort 300)) _ := .make rfl rfl rfl
    obtain ⟨more, full⟩ := grows change (by decide)
    exact ⟨_, change, more, full⟩

/-- **Of each size no more blocks are held, parked ones included, than there were objects of
it at once.** After each single step of a run there was a moment before, right after an
object had got its block, with at least as many mortal objects of that size, or no block of
that size is held. If all objects that are made have blocks of one size, the most blocks
that were held at once are the most objects that were. -/
theorem pools_within_need (host : Host κ) (c : Config) :
    (∀ {h : Heap κ}, Reached host (.ofConfig c) h → ∃ acts, Trace (.ofConfig c) acts h) ∧
    (∀ {h : Heap κ} {acts : List Act}, Trace (.ofConfig c) acts h → ∀ size,
      h.store.living size + h.store.parkedOf size = 0 ∨
      ∃ before r new after m, acts = before ++ .make r new :: after ∧
        Trace (.ofConfig c) (before ++ [.make r new]) m ∧ Trace m after h ∧
        h.store.living size + h.store.parkedOf size ≤ m.store.living size) ∧
    ∀ {h : Heap κ} {acts : List Act} {size : Nat}, Trace (.ofConfig c) acts h →
      (∀ r new, .make r new ∈ acts → new.size = size) →
      IsPeak (·.store.living size) (.ofConfig c) acts h h.ledger.counts.peakBlocks := by
  refine ⟨fun reached => reached.evolves, fun {h acts} t size => ?_, fun t sized => t.isPeak_living sized⟩
  have wf := Heap.WellFormed.ofConfig (κ := κ) c
  obtain ⟨chain, hf⟩ := (t.wellFormed wf).store
  have hstart : (Heap.ofConfig c : Heap κ).store.heldOf size = 0 := Heap.held_ofConfig c _
  rw [← hf.heldOf_eq]
  rcases t.heldOf_le wf size with none | found
  · exact Or.inl (Nat.le_zero.mp (hstart ▸ none))
  · exact Or.inr found

/-- A run with blocks of two sizes, after which a block of 16 bytes is parked and another one
is live, as two were before. And a run with one size: a short goes, its block is used again,
and a second block is taken for another short, so there were two at once. -/
theorem pools_within_need_tight :
    (∃ (h m : Heap Stock.Name) (acts before after : List Act), Reached (Stock.host 8) (.ofConfig tightConfig) h ∧
      h.store.living 16 = 1 ∧ h.store.parkedOf 16 = 1 ∧ acts = before ++ after ∧
      Trace (.ofConfig tightConfig) before m ∧ Trace m after h ∧ 2 ≤ m.store.living 16) ∧
    ∃ (h : Heap Stock.Name) (acts : List Act), Trace (.ofConfig tightConfig) acts h ∧
      acts = [.make ⟨3⟩ (madeShort 300), .bury ⟨3⟩ (madeShort 300), .make ⟨3⟩ (madeShort 301),
        .make ⟨4⟩ (madeShort 302)] ∧
      h.ledger.counts.peakBlocks = 2 ∧ IsPeak (·.store.living 16) (.ofConfig tightConfig) acts h 2 := by
  obtain ⟨traced, needed, peak⟩ := pools_within_need (Stock.host 8) tightConfig
  constructor
  · have hrun : (((Stock.host 8).performAll tightRequests (.ofConfig tightConfig)).toOption).map
        (fun h => (h.store.living 16, h.store.parkedOf 16)) = some (1, 1) := by decide +kernel
    obtain ⟨h, hp, hsee⟩ := Reached.of_performAll _ hrun
    obtain ⟨hliving, hparked⟩ := Prod.mk.inj hsee
    have reached : Reached (Stock.host 8) (.ofConfig tightConfig) h := .performAll .start hp
    obtain ⟨acts, t⟩ := traced reached
    have hsome := needed t 16
    rw [hliving, hparked] at hsome
    obtain ⟨before, r, new, after, m, rfl, tb, ta, hm⟩ := hsome.resolve_left (by decide)
    exact ⟨h, m, _, before ++ [.make r new], after, reached, hliving, hparked,
      List.append_cons before _ after, tb, ta, hm⟩
  · rw [ofConfig_tightConfig] at peak ⊢
    have t : Trace tightHeap [.make ⟨3⟩ (madeShort 300), .bury ⟨3⟩ (madeShort 300), .make ⟨3⟩ (madeShort 301),
        .make ⟨4⟩ (madeShort 302)] _ :=
      .cons (.make rfl rfl rfl) (.cons (.bury rfl) (.cons (.make rfl rfl rfl) (.cons (.make rfl rfl rfl) .nil)))
    have sized : ∀ value, (madeShort value).size = 16 := fun _ => rfl
    refine ⟨_, _, t, rfl, rfl, peak t fun r new hin => ?_⟩
    simp only [List.mem_cons, List.not_mem_nil, Act.make.injEq, reduceCtorEq, or_false, false_or] at hin
    rcases hin with ⟨-, rfl⟩ | ⟨-, rfl⟩ | ⟨-, rfl⟩ <;> exact sized _

end CountedHeap
