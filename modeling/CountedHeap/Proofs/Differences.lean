/-
# Differences of snapshots are exact

A delta is the difference of two counts, or the bound of 64 bits beyond which it lies.
The two bounds are not the same size, so a difference taken the other way has the
opposite deltas only as long as no delta reaches the lower one. A delta never hides a
change, since it is zero only if the counts are the same; but a type that is missing
counts as zero, so whether types came or went has to be said apart.

A heap has no type with a count of zero in its snapshot, and the counts are of all its
live objects. So two heaps have the same objects by type if no delta of a type shows a
change, and types that went need not be looked at.

Key definitions: `Clamps`, `Diff.Exact`, `Diff.reversed`, `Snapshot.Near`,
`Snapshot.Agrees`.
Key theorems: `delta_eq`, `Snapshot.getElem?_typeDeltas`, `Snapshot.diff_exact`,
`Snapshot.diff_reversed`, `Snapshot.isEmpty_diff`, `Heap.isLeakFree_diff`,
`differences_exact`.
-/
import CountedHeap.Proofs.ByteOrder
import CountedHeap.Proofs.Inventory
import CountedHeap.Proofs.Words

namespace CountedHeap

/-! ### Deltas -/

/-- `d` is `x`, or the bound of the words of 64 bits beyond which `x` lies. -/
def Clamps (x d : Int) : Prop :=
  (Word.FitsWide x → d = x) ∧ (x < -9223372036854775808 → d = -9223372036854775808) ∧
    (9223372036854775807 < x → d = 9223372036854775807)

/-- The counts differ by no more than the greatest word of 64 bits. -/
def Close (m n : Nat) : Prop := |(n : Int) - m| ≤ 9223372036854775807

instance (m n : Nat) : Decidable (Close m n) := inferInstanceAs (Decidable (_ ≤ _))

namespace Word

theorem toInt_ofNat_small {n : Nat} (small : n ≤ 9223372036854775807) : (Int64.ofNat n).toInt = n :=
  Int64.toInt_ofNat_of_lt (Nat.lt_succ_of_le small)

theorem wide_neg {v : Int64} (fits : FitsWide (-v.toInt)) : (-v).toInt = -v.toInt := by
  rw [Int64.toInt_neg]
  exact Int.bmod_eq_of_le fits.1 (Int.lt_of_le_of_lt fits.2 (by decide))

end Word

/-- **The words give the difference**, up to the bounds of 64 bits. -/
theorem delta_eq (before after : Nat) :
    delta before after = max (-9223372036854775808) (min 9223372036854775807 ((after : Int) - before)) := by
  unfold delta Word.difference Word.signed?
  by_cases hle : before ≤ after
  · rw [if_pos hle]
    by_cases small : after - before ≤ 9223372036854775807
    · rw [if_pos small, Option.getD_some, Word.toInt_ofNat_small small]
      omega
    · rw [if_neg small, Option.getD_none, Int64.toInt_maxValue]
      omega
  · rw [if_neg hle]
    by_cases small : before - after ≤ 9223372036854775807
    · have fits : Word.FitsWide (-(Int64.ofNat (before - after)).toInt) := by
        rw [Word.toInt_ofNat_small small]
        unfold Word.FitsWide
        omega
      rw [if_pos small, Option.elim_some, Word.wide_neg fits, Word.toInt_ofNat_small small]
      omega
    · -- the lower bound is one further from zero, so a difference of just that size is still exact
      rw [if_neg small, Option.elim_none, Int64.toInt_minValue]
      omega

/-- On words no subtraction leaves the 64 bits. -/
theorem delta_toNat (m n : UInt64) : delta m.toNat n.toNat =
    (if m ≤ n then (Word.signed? (n - m).toNat).getD Int64.maxValue
      else (Word.signed? (m - n).toNat).elim Int64.minValue (-·)).toInt := by
  unfold delta Word.difference
  by_cases hle : m ≤ n
  · rw [if_pos hle, if_pos (UInt64.le_iff_toNat_le.mp hle), UInt64.toNat_sub_of_le n m hle]
  · have hlt : n ≤ m := (UInt64.le_total m n).resolve_left hle
    rw [if_neg hle, if_neg (mt UInt64.le_iff_toNat_le.mpr hle), UInt64.toNat_sub_of_le m n hlt]

/-- **A delta is the clamped difference**, and nothing else is. -/
theorem clamps_iff {before after : Nat} {x : Int} : Clamps ((after : Int) - before) x ↔ delta before after = x := by
  unfold Clamps Word.FitsWide
  rw [delta_eq]
  omega

theorem delta_clamps (before after : Nat) : Clamps ((after : Int) - before) (delta before after) := clamps_iff.mpr rfl

theorem delta_eq_zero {before after : Nat} : delta before after = 0 ↔ before = after := by
  rw [delta_eq]
  omega

theorem delta_swap {before after : Nat} (close : Close before after) : delta after before = -delta before after := by
  unfold Close at close
  obtain ⟨low, high⟩ := abs_le.mp close
  rw [delta_eq, delta_eq]
  omega

/-- The delta of counts that may be missing is there if both are. -/
theorem delta?_eq_some {before after : Option Nat} {x : Int} :
    delta? before after = some x ↔ ∃ m n, before = some m ∧ after = some n ∧ Clamps ((n : Int) - m) x := by
  simp only [clamps_iff]
  cases before with
  | none => simp [delta?]
  | some m => cases after <;> simp [delta?]

theorem delta?_swap {before after : Option Nat}
    (close : ∀ m n, before = some m → after = some n → Close m n) :
    delta? after before = (delta? before after).map (-·) := by
  cases before with
  | none => cases after <;> rfl
  | some m =>
    cases after with
    | none => rfl
    | some n => exact congrArg some (delta_swap (close m n rfl rfl))

theorem delta?_all_zero {before after : Option Nat} :
    (delta? before after).all (· == 0) = true ↔ ∀ m n, before = some m → after = some n → m = n := by
  cases before with
  | none => simp [delta?]
  | some m =>
    cases after with
    | none => simp [delta?]
    | some n => simp [delta?, delta_eq_zero]

/-! ### What a difference has to say -/

namespace Diff

/-- Each delta is the difference of two counts as far as 64 bits go, and the names are those of the snapshots. -/
structure Exact (before after : Snapshot) (d : Diff) : Prop where
  liveObjects : Clamps ((after.liveObjects : Int) - before.liveObjects) d.liveObjects
  parkedBlocks : Clamps ((after.parkedBlocks : Int) - before.parkedBlocks) d.parkedBlocks
  vacantSlots : Clamps ((after.vacantSlots : Int) - before.vacantSlots) d.vacantSlots
  totalSlots : Clamps ((after.totalSlots : Int) - before.totalSlots) d.totalSlots
  violations : Clamps ((after.violations : Int) - before.violations) d.violations
  names : ∀ name, name ∈ d.objectsByType ↔ name ∈ before.objectsByType ∨ name ∈ after.objectsByType
  /-- A missing type counts as zero. -/
  counts : ∀ name x, d.objectsByType[name]? = some x →
    Clamps ((after.objectsByType.getD name 0 : Int) - before.objectsByType.getD name 0) x
  newTypes : ∀ name, name ∈ d.newTypes ↔ name ∈ after.objectsByType ∧ name ∉ before.objectsByType
  removedTypes : ∀ name, name ∈ d.removedTypes ↔ name ∈ before.objectsByType ∧ name ∉ after.objectsByType
  newTypes_ordered : d.newTypes.Pairwise fun s t => Utf8.bytes s < Utf8.bytes t
  removedTypes_ordered : d.removedTypes.Pairwise fun s t => Utf8.bytes s < Utf8.bytes t
  trackerAllocations : ∀ x, d.trackerAllocations = some x ↔ ∃ m n, before.trackerAllocations = some m ∧
    after.trackerAllocations = some n ∧ Clamps ((n : Int) - m) x
  trackerMemory : ∀ x, d.trackerMemory = some x ↔ ∃ m n, before.trackerMemory = some m ∧
    after.trackerMemory = some n ∧ Clamps ((n : Int) - m) x

/-- The difference the other way: opposite deltas, and the types that came are those that went. -/
def reversed (d : Diff) : Diff where
  liveObjects := -d.liveObjects
  parkedBlocks := -d.parkedBlocks
  vacantSlots := -d.vacantSlots
  totalSlots := -d.totalSlots
  objectsByType := d.objectsByType.map fun _ x => -x
  newTypes := d.removedTypes
  removedTypes := d.newTypes
  violations := -d.violations
  trackerAllocations := d.trackerAllocations.map (-·)
  trackerMemory := d.trackerMemory.map (-·)

/-- The differences are the same; the maps have the same entries, however they were built. -/
def Same (d e : Diff) : Prop := d.objectsByType.Equiv e.objectsByType ∧ e = { d with objectsByType := e.objectsByType }

end Diff

namespace Snapshot

variable {before after : Snapshot}

/-! ### Types -/

theorem getElem?_insertAll (value : String → Int) (name : String) :
    ∀ (names : List String) (m : Std.TreeMap String Int),
    (names.foldl (fun m name => m.insert name (value name)) m)[name]? =
      if name ∈ names then some (value name) else m[name]?
  | [], m => by simp
  | other :: names, m => by
    rw [List.foldl_cons, getElem?_insertAll value name names, Std.TreeMap.getElem?_insert]
    by_cases same : other = name
    · subst same
      simp
    · have differs : compare other name ≠ .eq := by
        rw [ne_eq, Std.LawfulEqOrd.compare_eq_iff_eq]
        exact same
      simp [differs, Ne.symm same]

/-- **Each type of either snapshot has its delta**, although the types of both come up twice. -/
theorem getElem?_typeDeltas (before after : Std.TreeMap String Nat) (name : String) :
    (typeDeltas before after)[name]? =
      if name ∈ before ∨ name ∈ after then some (delta (before.getD name 0) (after.getD name 0)) else none := by
  refine (getElem?_insertAll (fun name => delta (before.getD name 0) (after.getD name 0)) name _ {}).trans ?_
  simp only [List.mem_append, Std.TreeMap.mem_keys, Std.TreeMap.getElem?_emptyc]

theorem mem_typeDeltas {before after : Std.TreeMap String Nat} {name : String} :
    name ∈ typeDeltas before after ↔ name ∈ before ∨ name ∈ after := by
  rw [Std.TreeMap.mem_iff_isSome_getElem?, getElem?_typeDeltas]
  split <;> simp_all

theorem typeDeltas_clamps {before after : Std.TreeMap String Nat} {name : String} {x : Int}
    (found : (typeDeltas before after)[name]? = some x) :
    Clamps ((after.getD name 0 : Int) - before.getD name 0) x := by
  rw [getElem?_typeDeltas] at found
  split at found
  · exact clamps_iff.mpr (Option.some.inj found)
  · cases found

/-- The names of one map that are not in the other. -/
theorem mem_exclusive {m m' : Std.TreeMap String Nat} {name : String} :
    name ∈ m.keys.filter (!m'.contains ·) ↔ name ∈ m ∧ name ∉ m' := by
  rw [List.mem_filter, Std.TreeMap.mem_keys, Bool.not_eq_true', ← Bool.not_eq_true, ← Std.TreeMap.mem_iff_contains]

theorem exclusive_ordered (m m' : Std.TreeMap String Nat) :
    (m.keys.filter (!m'.contains ·)).Pairwise fun s t => Utf8.bytes s < Utf8.bytes t := by
  apply List.Pairwise.filter
  refine Std.TreeMap.ordered_keys.imp fun less => ?_
  exact Utf8.bytes_lt (compareOfLessAndEq_eq_lt.mp less)

theorem exclusive_isEmpty {m m' : Std.TreeMap String Nat} :
    (m.keys.filter (!m'.contains ·)).isEmpty = true ↔ ∀ name, name ∈ m → name ∈ m' := by
  rw [List.isEmpty_iff, List.eq_nil_iff_forall_not_mem]
  refine forall_congr' fun name => ?_
  rw [mem_exclusive, not_and, not_not]

theorem mem_values {m : Std.TreeMap String Int} {x : Int} : x ∈ m.values ↔ ∃ name : String, m[name]? = some x := by
  have values : m.values = m.toList.map Prod.snd := by
    show m.foldr (fun _ v values => v :: values) [] = _
    rw [Std.TreeMap.foldr_eq_foldr_toList, List.map_eq_foldr]
  rw [values, List.mem_map]
  constructor
  · rintro ⟨⟨name, y⟩, entry, rfl⟩
    exact ⟨name, Std.TreeMap.mem_toList_iff_getElem?_eq_some.mp entry⟩
  · rintro ⟨name, found⟩
    exact ⟨(name, x), Std.TreeMap.mem_toList_iff_getElem?_eq_some.mpr found, rfl⟩

/-- No delta shows a change if all counts are the same, where a missing type counts as zero. -/
theorem typeDeltas_all_zero {before after : Std.TreeMap String Nat} :
    (typeDeltas before after).values.all (· == 0) = true ↔ ∀ name, before.getD name 0 = after.getD name 0 := by
  rw [List.all_eq_true]
  constructor
  · intro zero name
    by_cases known : name ∈ before ∨ name ∈ after
    · have found := getElem?_typeDeltas before after name
      rw [if_pos known] at found
      have := zero _ (mem_values.mpr ⟨name, found⟩)
      exact delta_eq_zero.mp (by simpa using this)
    · rw [not_or] at known
      rw [Std.TreeMap.getD_eq_fallback known.1, Std.TreeMap.getD_eq_fallback known.2]
  · intro same x hx
    obtain ⟨name, found⟩ := mem_values.mp hx
    have zero : delta (before.getD name 0) (after.getD name 0) = 0 := delta_eq_zero.mpr (same name)
    rw [← clamps_iff.mp (typeDeltas_clamps found), zero]
    rfl

/-- Maps with the same names and counts are the same. -/
theorem equiv_iff {m m' : Std.TreeMap String Nat} :
    m.Equiv m' ↔ (∀ name, name ∈ m ↔ name ∈ m') ∧ ∀ name, m.getD name 0 = m'.getD name 0 := by
  constructor
  · exact fun same => ⟨fun name => same.mem_iff, fun name => same.getD_eq⟩
  · rintro ⟨names, counts⟩
    apply Std.TreeMap.Equiv.of_forall_constGet?_eq
    intro name
    by_cases known : name ∈ m
    · have count : m[name]? = some (m.getD name 0) := Std.TreeMap.getElem?_eq_some_getD known
      have count' : m'[name]? = some (m'.getD name 0) := Std.TreeMap.getElem?_eq_some_getD ((names name).mp known)
      rw [count, count', counts name]
    · have unknown : name ∉ m' := mt (names name).mpr known
      rw [Std.TreeMap.getElem?_eq_none known, Std.TreeMap.getElem?_eq_none unknown]

/-! ### The difference of two snapshots -/

theorem diff_exact (before after : Snapshot) : (before.diff after).Exact before after where
  liveObjects := delta_clamps _ _
  parkedBlocks := delta_clamps _ _
  vacantSlots := delta_clamps _ _
  totalSlots := delta_clamps _ _
  violations := delta_clamps _ _
  names _ := mem_typeDeltas
  counts _ _ := typeDeltas_clamps
  newTypes _ := mem_exclusive
  removedTypes _ := mem_exclusive
  newTypes_ordered := exclusive_ordered _ _
  removedTypes_ordered := exclusive_ordered _ _
  trackerAllocations _ := delta?_eq_some
  trackerMemory _ := delta?_eq_some

/-- No two counts that are compared differ by more than the greatest word of 64 bits. -/
structure Near (before after : Snapshot) : Prop where
  liveObjects : Close before.liveObjects after.liveObjects
  parkedBlocks : Close before.parkedBlocks after.parkedBlocks
  vacantSlots : Close before.vacantSlots after.vacantSlots
  totalSlots : Close before.totalSlots after.totalSlots
  violations : Close before.violations after.violations
  objectsByType : ∀ name, Close (before.objectsByType.getD name 0) (after.objectsByType.getD name 0)
  trackerAllocations : ∀ m n, before.trackerAllocations = some m → after.trackerAllocations = some n → Close m n
  trackerMemory : ∀ m n, before.trackerMemory = some m → after.trackerMemory = some n → Close m n

theorem typeDeltas_swap {before after : Std.TreeMap String Nat}
    (close : ∀ name, Close (before.getD name 0) (after.getD name 0)) :
    ((typeDeltas before after).map fun _ x => -x).Equiv (typeDeltas after before) := by
  apply Std.TreeMap.Equiv.of_forall_constGet?_eq
  intro name
  rw [Std.TreeMap.getElem?_map, getElem?_typeDeltas, getElem?_typeDeltas, delta_swap (close name)]
  by_cases known : name ∈ before ∨ name ∈ after
  · rw [if_pos known, if_pos known.symm]
    rfl
  · rw [if_neg known, if_neg (mt Or.symm known)]
    rfl

/-- **The difference the other way is the reverse**, as long as no delta is out of range. -/
theorem diff_reversed (near : before.Near after) : (before.diff after).reversed.Same (after.diff before) := by
  refine ⟨typeDeltas_swap near.objectsByType, ?_⟩
  unfold diff Diff.reversed
  simp only [delta_swap near.liveObjects, delta_swap near.parkedBlocks, delta_swap near.vacantSlots,
    delta_swap near.totalSlots, delta_swap near.violations, delta?_swap near.trackerAllocations,
    delta?_swap near.trackerMemory]

/-- The snapshots are the same in all that is compared. -/
structure Agrees (before after : Snapshot) : Prop where
  liveObjects : before.liveObjects = after.liveObjects
  parkedBlocks : before.parkedBlocks = after.parkedBlocks
  vacantSlots : before.vacantSlots = after.vacantSlots
  totalSlots : before.totalSlots = after.totalSlots
  violations : before.violations = after.violations
  objectsByType : before.objectsByType.Equiv after.objectsByType
  trackerAllocations : ∀ m n, before.trackerAllocations = some m → after.trackerAllocations = some n → m = n
  trackerMemory : ∀ m n, before.trackerMemory = some m → after.trackerMemory = some n → m = n

/-- **A difference is empty if nothing differs.** -/
theorem isEmpty_diff : (before.diff after).isEmpty = true ↔ before.Agrees after := by
  unfold Diff.isEmpty diff
  simp only [Bool.and_eq_true, beq_iff_eq, delta_eq_zero, exclusive_isEmpty, typeDeltas_all_zero, delta?_all_zero,
    and_assoc]
  constructor
  · rintro ⟨live, parked, vacant, total, violations, came, went, counts, allocations, memory⟩
    have types := equiv_iff.mpr ⟨fun name => ⟨went name, came name⟩, counts⟩
    exact ⟨live, parked, vacant, total, violations, types, allocations, memory⟩
  · rintro ⟨live, parked, vacant, total, violations, types, allocations, memory⟩
    obtain ⟨names, counts⟩ := equiv_iff.mp types
    exact ⟨live, parked, vacant, total, violations, fun name => (names name).mpr, fun name => (names name).mp, counts,
      allocations, memory⟩

end Snapshot

/-! ### Snapshots of heaps -/

namespace Heap

variable {κ κ' : Role → Type} {h : Heap κ} {h' : Heap κ'}

/-- A type is in the snapshot of a heap if it has live objects. -/
theorem mem_objectsByType (h : Heap κ) (name : String) :
    name ∈ h.snapshot.objectsByType ↔ h.snapshot.objectsByType.getD name 0 ≠ 0 := by
  rw [Std.TreeMap.mem_iff_isSome_getElem?, Std.TreeMap.getD_eq_getD_getElem?, getElem?_objectsByType]
  split <;> simp_all

/-- The counts tell which types there are. -/
theorem objectsByType_equiv
    (counts : ∀ name, h.snapshot.objectsByType.getD name 0 = h'.snapshot.objectsByType.getD name 0) :
    h.snapshot.objectsByType.Equiv h'.snapshot.objectsByType := by
  refine Snapshot.equiv_iff.mpr ⟨fun name => ?_, counts⟩
  rw [mem_objectsByType, mem_objectsByType, counts]

theorem liveObjects_eq (types : h.snapshot.objectsByType.Equiv h'.snapshot.objectsByType) :
    h.snapshot.liveObjects = h'.snapshot.liveObjects := by
  rw [← sum_objectsByType, ← sum_objectsByType, types.toList_eq]

/-- **A heap has no leak if it has the same objects by type.** -/
theorem isLeakFree_diff : (h.snapshot.diff h'.snapshot).isLeakFree = true ↔
    h.snapshot.objectsByType.Equiv h'.snapshot.objectsByType := by
  unfold Diff.isLeakFree Snapshot.diff
  simp only [Bool.and_eq_true, beq_iff_eq, delta_eq_zero, Snapshot.exclusive_isEmpty, Snapshot.typeDeltas_all_zero,
    and_assoc]
  constructor
  · rintro ⟨-, -, counts⟩
    exact objectsByType_equiv counts
  · intro types
    obtain ⟨names, counts⟩ := Snapshot.equiv_iff.mp types
    exact ⟨liveObjects_eq types, fun name => (names name).mpr, counts⟩

end Heap

/-- **Differences of snapshots are exact.** Every delta is the later count less the earlier one, or the bound of
64 bits beyond which that lies (`Diff.Exact`). The difference the other way is the reverse if no two counts differ by
more than the greatest word, and a difference is empty exactly if the snapshots agree in all that is compared. Of
heaps, however made, there is no leak exactly if the objects by type are the same. For counts of 64 bits the
subtractions are those of the machine. -/
theorem differences_exact (before after : Snapshot) :
    (before.diff after).Exact before after ∧
    (before.Near after → (before.diff after).reversed.Same (after.diff before)) ∧
    ((before.diff after).isEmpty = true ↔ before.Agrees after) ∧
    (∀ (κ κ' : Role → Type) (h : Heap κ) (h' : Heap κ'),
      (h.snapshot.diff h'.snapshot).isLeakFree = true ↔
        h.snapshot.objectsByType.Equiv h'.snapshot.objectsByType) ∧
    ∀ m n : UInt64, delta m.toNat n.toNat =
      (if m ≤ n then (Word.signed? (n - m).toNat).getD Int64.maxValue
        else (Word.signed? (m - n).toNat).elim Int64.minValue (-·)).toInt := by
  refine ⟨Snapshot.diff_exact before after, fun near => Snapshot.diff_reversed near, Snapshot.isEmpty_diff, ?_, ?_⟩
  · exact fun _ _ h h' => Heap.isLeakFree_diff
  · exact delta_toNat

namespace Stock

/-- Shorts and a tuple, and no violation. -/
def earlier : Snapshot where
  liveObjects := 3
  totalSlots := 3
  objectsByType := ((∅ : Std.TreeMap String Nat).insert "short" 2).insert "tuple" 1
  trackerMemory := some 72

/-- The shorts are gone, and there are as many violations as a delta can tell. -/
def later : Snapshot where
  liveObjects := 1
  vacantSlots := 2
  totalSlots := 3
  objectsByType := (∅ : Std.TreeMap String Nat).insert "tuple" 1
  violations := 9223372036854775807
  trackerAllocations := some 1
  trackerMemory := some 40

end Stock

/-- A type goes, one count is as far from the other as it may be, and a count is missing on one side. -/
theorem differences_exact_extreme :
    Stock.earlier.Near Stock.later ∧
    (Stock.earlier.diff Stock.later).violations = 9223372036854775807 ∧
    (Stock.later.diff Stock.earlier).violations = -9223372036854775807 ∧
    (Stock.earlier.diff Stock.later).trackerAllocations = none ∧
    "short" ∈ (Stock.earlier.diff Stock.later).removedTypes ∧
    (Stock.earlier.diff Stock.later).reversed.Same (Stock.later.diff Stock.earlier) := by
  have near : Stock.earlier.Near Stock.later := by
    refine ⟨by decide, by decide, by decide, by decide, by decide, fun name => ?_, ?_, ?_⟩
    · unfold Close Stock.earlier Stock.later
      simp only [Std.TreeMap.getD_insert, Std.TreeMap.getD_emptyc]
      split_ifs <;> decide
    · rintro m n ⟨⟩
    · rintro m n ⟨⟩ ⟨⟩
      decide
  obtain ⟨exact, reverse, -⟩ := differences_exact Stock.earlier Stock.later
  refine ⟨near, rfl, rfl, rfl, (exact.removedTypes "short").mpr ?_, reverse near⟩
  simp [Stock.earlier, Stock.later]

end CountedHeap
