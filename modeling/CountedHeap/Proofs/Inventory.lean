/-
# What a heap holds adds up

Every slot of a reached heap is live, parked or vacant, and the counts that a
heap keeps beside its slots (the length of the vacant list, the lengths of the
free lists) are the numbers of such slots. So a snapshot adds up, although it
takes its numbers from different places.

References may be forged: a tuple can name dead slots, even its own, and a slot
can be released twice. None of that reaches the lists.

Key theorem: `slots_accounted`.
-/
import Mathlib.Algebra.BigOperators.Group.Finset.Basic
import Mathlib.Data.List.Nodup
import CountedHeap.Proofs.Evolution
import CountedHeap.Snapshot
import CountedHeap.Stock

namespace CountedHeap

variable {κ : Role → Type} {α : Type}

/-! ### Counting slots -/

/-- The positions of the elements that satisfy `p`, counted. -/
theorem countP_eq_length_positions (p : α → Bool) : ∀ l : List α,
    l.countP p = ((List.range l.length).filter fun i => (l[i]?).any p).length
  | [] => rfl
  | a :: l => by
    have ih := countP_eq_length_positions p l
    rw [List.length_cons, List.range_succ_eq_map, List.countP_cons, List.filter_cons, List.filter_map, ih]
    by_cases ha : p a = true
    · simp [ha, Function.comp_def]
    · simp [ha, Function.comp_def]

/-- A list that names each slot of a kind once is as long as there are such slots. -/
theorem length_eq_countP {slots : Array Slot} {p : Slot → Bool} {refs : List Ref} (nodup : refs.Nodup)
    (mem : ∀ r : Ref, r ∈ refs ↔ ∃ slot, slots[r.index]? = some slot ∧ p slot = true) :
    refs.length = slots.toList.countP p := by
  have hinj : Function.Injective Ref.index := by
    intro a b h
    cases a
    cases b
    cases h
    rfl
  have hperm : List.Perm (refs.map Ref.index)
      ((List.range slots.toList.length).filter fun i => (slots.toList[i]?).any p) := by
    refine (List.perm_ext_iff_of_nodup (nodup.map hinj) (List.nodup_range.filter _)).mpr fun i => ?_
    have hi : i ∈ refs.map Ref.index ↔ (⟨i⟩ : Ref) ∈ refs := by
      refine ⟨fun h => ?_, fun h => List.mem_map.mpr ⟨_, h, rfl⟩⟩
      obtain ⟨r, hr, rfl⟩ := List.mem_map.mp h
      exact hr
    rw [hi, mem, List.mem_filter, List.mem_range, Array.getElem?_toList]
    constructor
    · rintro ⟨slot, hs, hp⟩
      refine ⟨?_, by rw [hs]; exact hp⟩
      rw [Array.length_toList]
      exact (Array.getElem?_eq_some_iff.mp hs).1
    · rintro ⟨-, hany⟩
      cases hs : slots[i]? with
      | none =>
        rw [hs] at hany
        simp at hany
      | some slot =>
        rw [hs] at hany
        exact ⟨slot, rfl, by simpa using hany⟩
  rw [countP_eq_length_positions, ← hperm.length_eq, List.length_map]

namespace Slot

def isLive (slot : Slot) : Bool := slot.object?.isSome

def isParked : Slot → Bool
  | .parked _ _ => true
  | _ => false

def isVacant : Slot → Bool
  | .vacant => true
  | _ => false

/-- Whether the slot holds an immortal object. -/
def isImmortal : Slot → Bool
  | .live o => o.immortal
  | _ => false

/-- A slot is of one kind. -/
theorem countP_kinds : ∀ l : List Slot, l.countP isLive + l.countP isParked + l.countP isVacant = l.length
  | [] => rfl
  | slot :: l => by
    have ih := countP_kinds l
    simp only [List.countP_cons, List.length_cons]
    cases slot <;> simp only [isLive, isParked, isVacant, object?, Option.isSome] <;> simp <;> omega

end Slot

namespace Store

variable {s : Store} {chain : Nat → List Ref}

theorem liveCount_eq (s : Store) : s.liveCount = s.slots.toList.countP Slot.isLive := by
  have hfold : ∀ (l : List Slot) (n : Nat),
      l.foldl (fun n slot => if slot.object?.isSome then n + 1 else n) n = n + l.countP Slot.isLive := by
    intro l
    induction l with
    | nil => exact fun n => rfl
    | cons slot l ih =>
      intro n
      rw [List.foldl_cons, ih, List.countP_cons, Slot.isLive]
      by_cases hs : slot.object?.isSome = true
      · rw [if_pos hs, if_pos hs]
        omega
      · rw [if_neg hs, if_neg hs]
        omega
  unfold liveCount
  rw [← Array.foldl_toList, hfold, Nat.zero_add]

namespace Formed

theorem vacant_length (f : Formed s chain) : s.vacant.length = s.slots.toList.countP Slot.isVacant := by
  refine length_eq_countP f.vacant_nodup fun r => ?_
  rw [f.mem_vacant]
  refine ⟨fun h => ⟨_, h, rfl⟩, ?_⟩
  rintro ⟨slot, hs, hp⟩
  cases slot with
  | vacant => exact hs
  | live o => cases hp
  | parked next size => cases hp

/-- Free lists of different sizes have no block in common. -/
theorem disjoint (f : Formed s chain) {c c' : SizeClass} (hc : c ∈ s.classes) (hc' : c' ∈ s.classes)
    (hne : c.size ≠ c'.size) {r : Ref} (hr : r ∈ chain c.size) : r ∉ chain c'.size := by
  intro hr'
  obtain ⟨next, hs⟩ := (f.linked c hc).parked r hr
  obtain ⟨next', hs'⟩ := (f.linked c' hc').parked r hr'
  rw [hs] at hs'
  exact hne (Slot.parked.inj (Option.some.inj hs')).2

theorem parkedCount_eq (f : Formed s chain) : s.parkedCount = s.slots.toList.countP Slot.isParked := by
  have hlen : s.parkedCount = (s.classes.flatMap fun c => chain c.size).length := by
    have hsum : s.parkedCount = (s.classes.map SizeClass.length).sum := by
      rw [List.sum_eq_foldl, List.foldl_map]
      rfl
    rw [hsum, List.length_flatMap, List.map_congr_left f.length]
  rw [hlen]
  refine length_eq_countP ?_ fun r => ?_
  · rw [List.nodup_flatMap]
    refine ⟨fun c hc => f.nodup c hc, ?_⟩
    have hsizes : s.classes.Pairwise fun c c' => c.size ≠ c'.size := List.pairwise_map.mp f.sizes_nodup
    refine hsizes.imp_of_mem fun hc hc' hne => ?_
    exact fun r hr hr' => f.disjoint hc hc' hne hr hr'
  · rw [List.mem_flatMap]
    constructor
    · rintro ⟨c, hc, hr⟩
      obtain ⟨next, hs⟩ := (f.linked c hc).parked r hr
      exact ⟨_, hs, rfl⟩
    · rintro ⟨slot, hs, hp⟩
      cases slot with
      | vacant => cases hp
      | live o => cases hp
      | parked next size =>
        obtain ⟨hr, hsize⟩ := f.covered r next size hs
        obtain ⟨c, hc, rfl⟩ := List.mem_map.mp hsize
        exact ⟨c, hc, hr⟩

end Formed

end Store

/-! ### Counting objects by type -/

/-- Counting elements key by key counts each once. -/
theorem sum_countP_eq_length {β : Type} [DecidableEq β] (key : α → β) {keys : List β} (nodup : keys.Nodup)
    {l : List α} (h : ∀ a ∈ l, key a ∈ keys) : (keys.map fun k => l.countP fun a => key a = k).sum = l.length := by
  have hcount : ∀ k, (l.countP fun a => key a = k) = Multiset.count k (l.map key : Multiset β) := by
    intro k
    rw [Multiset.coe_count, List.count, List.countP_map]
    exact List.countP_congr fun a _ => by simp
  have hcover : ∀ k ∈ (l.map key : Multiset β), k ∈ keys.toFinset := by
    simpa using h
  simp only [hcount]
  rw [← List.sum_toFinset _ nodup, Multiset.sum_count_eq_card hcover, Multiset.coe_card, List.length_map]

namespace Heap

/-- A tally of objects has, under each name, the number of objects of a type with that name. -/
theorem getElem?_tally (types : Registry κ) (name : String) : ∀ (objects : List Object) (m : Std.TreeMap String Nat),
    (objects.foldl (countType types) m)[name]? =
      if (objects.countP fun o => types.nameOf o.type = name) = 0 then m[name]?
      else some (m[name]?.getD 0 + objects.countP fun o => types.nameOf o.type = name)
  | [], m => by simp
  | o :: rest, m => by
    rw [List.foldl_cons, getElem?_tally types name rest, countType, Std.TreeMap.getElem?_alter, List.countP_cons]
    by_cases hn : types.nameOf o.type = name
    · subst hn
      by_cases hz : (rest.countP fun o' => types.nameOf o'.type = types.nameOf o.type) = 0
      · simp [hz]
      · simp [hz]
        omega
    · have hc : ¬ (compare (types.nameOf o.type) name = .eq) := by
        rw [Std.LawfulEqOrd.compare_eq_iff_eq]
        exact hn
      simp [hn, hc]

theorem getElem?_objectsByType (h : Heap κ) (name : String) : h.snapshot.objectsByType[name]? =
    if (h.liveObjects.countP fun o => h.types.nameOf o.type = name) = 0 then .none
    else some (h.liveObjects.countP fun o => h.types.nameOf o.type = name) := by
  refine (getElem?_tally h.types name h.liveObjects {}).trans ?_
  simp

theorem length_liveObjects (h : Heap κ) : h.liveObjects.length = h.snapshot.liveObjects := by
  show h.liveObjects.length = h.store.liveCount
  rw [Store.liveCount_eq]
  exact List.length_filterMap_eq_countP

/-- The counts by type add up to the number of live objects. -/
theorem sum_objectsByType (h : Heap κ) :
    (h.snapshot.objectsByType.toList.map (·.2)).sum = h.snapshot.liveObjects := by
  have hcount := h.getElem?_objectsByType
  set counts := h.snapshot.objectsByType with hcounts
  have hvalue : ∀ p ∈ counts.toList, p.2 = h.liveObjects.countP fun o => h.types.nameOf o.type = p.1 := by
    intro p hp
    have hget := Std.TreeMap.mem_toList_iff_getElem?_eq_some.mp hp
    rw [hcount] at hget
    split at hget
    · cases hget
    · exact (Option.some.inj hget).symm
  have hnodup : (counts.toList.map Prod.fst).Nodup := by
    rw [List.Nodup, List.pairwise_map]
    refine Std.TreeMap.distinct_keys_toList.imp fun hne heq => hne ?_
    rw [heq]
    exact Std.ReflOrd.compare_self
  have hcover : ∀ o ∈ h.liveObjects, h.types.nameOf o.type ∈ counts.toList.map Prod.fst := by
    intro o ho
    have hpos : (h.liveObjects.countP fun o' => h.types.nameOf o'.type = h.types.nameOf o.type) ≠ 0 := by
      rw [Nat.ne_zero_iff_zero_lt, List.countP_pos_iff]
      exact ⟨o, ho, by simp⟩
    have hget := hcount (h.types.nameOf o.type)
    rw [if_neg hpos] at hget
    exact List.mem_map.mpr ⟨_, Std.TreeMap.mem_toList_iff_getElem?_eq_some.mpr hget, rfl⟩
  calc (counts.toList.map (·.2)).sum
      = ((counts.toList.map Prod.fst).map fun k => h.liveObjects.countP fun o => h.types.nameOf o.type = k).sum := by
        rw [List.map_map]
        exact congrArg List.sum (List.map_congr_left hvalue)
    _ = h.liveObjects.length := sum_countP_eq_length _ hnodup hcover
    _ = h.snapshot.liveObjects := h.length_liveObjects

namespace WellFormed

variable {h : Heap κ}

/-- Live, parked and vacant slots are all slots. -/
theorem snapshot_total (wf : h.WellFormed) :
    h.snapshot.liveObjects + h.snapshot.parkedBlocks + h.snapshot.vacantSlots = h.snapshot.totalSlots := by
  obtain ⟨chain, hf⟩ := wf.store
  show h.store.liveCount + h.store.parkedCount + h.store.vacant.length = h.store.slots.size
  rw [Store.liveCount_eq, hf.parkedCount_eq, hf.vacant_length, Slot.countP_kinds, Array.length_toList]

/-- The immortal objects are the interned ones. -/
theorem snapshot_immortal (wf : h.WellFormed) : h.snapshot.immortalObjects = h.interned.count := by
  have hcount : h.snapshot.immortalObjects = h.store.slots.toList.countP Slot.isImmortal := by
    show (h.liveObjects.filter (·.immortal)).length = _
    rw [← List.countP_eq_length_filter, liveObjects, List.countP_filterMap]
    refine List.countP_congr fun slot _ => ?_
    cases slot <;> simp [Slot.object?, Slot.isImmortal]
  have hrefs : ((List.range h.interned.count).map Ref.mk).length = h.store.slots.toList.countP Slot.isImmortal := by
    refine length_eq_countP (List.nodup_range.map fun a b hab => by cases hab; rfl) fun r => ?_
    have hr : r ∈ (List.range h.interned.count).map Ref.mk ↔ r.index < h.interned.count := by
      simp only [List.mem_map, List.mem_range]
      constructor
      · rintro ⟨i, hi, rfl⟩
        exact hi
      · exact fun hi => ⟨r.index, hi, rfl⟩
    rw [hr]
    constructor
    · intro hlt
      obtain ⟨o, n, h₀, live⟩ := wf.interned r hlt
      obtain ⟨o', ho', horig⟩ := Interned.slots_original _ h₀
      cases ho'
      exact ⟨_, slot_of_object? live, horig.immortal⟩
    · rintro ⟨slot, hs, hp⟩
      cases slot with
      | live o => exact wf.immortal r o (object?_of_slot hs) hp
      | vacant => cases hp
      | parked next size => cases hp
  rw [hcount, ← hrefs, List.length_map, List.length_range]

end WellFormed

end Heap

/-- A reached heap has the interned range and the classes of its configuration. -/
theorem Reached.layout {host : Host κ} {c : Config} {h : Heap κ} (reached : Reached host (.ofConfig c) h) :
    h.interned = ⟨c.internedRange⟩ ∧ h.store.classLimit = c.pool.maxPerClass ∧
      h.store.classes.map SizeClass.size = c.pool.sizeClasses.eraseDups := by
  obtain ⟨acts, t⟩ := reached.evolves
  refine t.induct (P := fun h => h.interned = ⟨c.internedRange⟩ ∧ h.store.classLimit = c.pool.maxPerClass ∧
    h.store.classes.map SizeClass.size = c.pool.sizeClasses.eraseDups) (fun step ih => ?_) ⟨rfl, rfl, ?_⟩
  · obtain ⟨hi, hl, hs⟩ := step.layout
    rw [hi, hl, hs]
    exact ih
  · show (c.pool.sizeClasses.eraseDups.map ({ size := · } : Nat → SizeClass)).map SizeClass.size = _
    rw [List.map_map]
    exact List.map_id _

/-! ### All slots of a reached heap -/

/-- Every slot is accounted for; `limit` bounds the free lists. -/
structure Heap.Accounted (h : Heap κ) (limit : Option Nat) : Prop where
  vacant_once : h.store.vacant.Nodup
  vacant_iff : ∀ r : Ref, r ∈ h.store.vacant ↔ h.store.slots[r.index]? = some .vacant
  sizes_distinct : (h.store.classes.map SizeClass.size).Nodup
  /-- Following the links of a class visits as many blocks as it says, each once. -/
  chain : ∀ c ∈ h.store.classes, ∃ blocks, Linked h.store.slots c.size c.head blocks ∧ blocks.Nodup ∧
    blocks.length = c.length
  chains_disjoint : ∀ c ∈ h.store.classes, ∀ c' ∈ h.store.classes, c ≠ c' → ∀ blocks blocks',
    Linked h.store.slots c.size c.head blocks → Linked h.store.slots c'.size c'.head blocks' →
    ∀ r ∈ blocks, r ∉ blocks'
  parked_once : ∀ (r : Ref) (next : Option Ref) (size : Nat), h.store.slots[r.index]? = some (.parked next size) →
    ∃! c, c ∈ h.store.classes ∧ ∃ blocks, Linked h.store.slots c.size c.head blocks ∧ r ∈ blocks
  limited : ∀ c ∈ h.store.classes, ∀ n, limit = some n → c.length ≤ n
  objects : ∀ r o, h.object? r = some o → 1 ≤ o.refcount ∧ o.payload.Fits o.type ∧
    o.length = o.payload.children.length ∧
    ∃ d, h.types.get? o.type = some d ∧ o.size = d.basicSize + d.itemSize * o.length

theorem Heap.WellFormed.accounted {h : Heap κ} (wf : h.WellFormed) : h.Accounted h.store.classLimit := by
  obtain ⟨chain, hf⟩ := wf.store
  -- two classes of one size are one class
  have hclass : ∀ c ∈ h.store.classes, ∀ c' ∈ h.store.classes, c.size = c'.size → c = c' :=
    fun c hc c' hc' he => List.inj_on_of_nodup_map hf.sizes_nodup hc hc' he
  have hsize : ∀ {c c' : SizeClass} {blocks blocks' : List Ref} {r : Ref},
      Linked h.store.slots c.size c.head blocks → r ∈ blocks →
      Linked h.store.slots c'.size c'.head blocks' → r ∈ blocks' → c.size = c'.size := by
    intro c c' blocks blocks' r hl hr hl' hr'
    obtain ⟨next, hs⟩ := hl.parked r hr
    obtain ⟨next', hs'⟩ := hl'.parked r hr'
    rw [hs] at hs'
    exact (Slot.parked.inj (Option.some.inj hs')).2
  refine ⟨hf.vacant_nodup, hf.mem_vacant, hf.sizes_nodup, fun c hc => ?_,
    fun c hc c' hc' hne blocks blocks' hl hl' r hr => ?_, fun r next size hs => ?_, hf.limited, fun r o live => ?_⟩
  · exact ⟨chain c.size, hf.linked c hc, hf.nodup c hc, hf.length c hc⟩
  · exact fun hr' => hne (hclass c hc c' hc' (hsize hl hr hl' hr'))
  · obtain ⟨hr, hin⟩ := hf.covered r next size hs
    obtain ⟨c, hc, rfl⟩ := List.mem_map.mp hin
    refine ⟨c, ⟨hc, chain c.size, hf.linked c hc, hr⟩, ?_⟩
    rintro c' ⟨hc', blocks', hl', hr'⟩
    exact hclass c' hc' c hc (hsize hl' hr' (hf.linked c hc) hr)
  · obtain ⟨hcount, ⟨d, hd, hsize⟩, hfits, hlen⟩ := wf.objects r o live
    exact ⟨hcount, hfits, hlen, d, hd, hsize⟩

/-- **Every slot is accounted for, whatever references are forged.** In a reached
heap the vacant list and the free lists hold the vacant and the parked slots, each
once; the objects are as their types demand; and a snapshot adds up. -/
theorem slots_accounted {host : Host κ} {c : Config} {h : Heap κ} (reached : Reached host (.ofConfig c) h) :
    h.Accounted c.pool.maxPerClass ∧
    h.snapshot.liveObjects + h.snapshot.parkedBlocks + h.snapshot.vacantSlots = h.snapshot.totalSlots ∧
    (h.snapshot.objectsByType.toList.map (·.2)).sum = h.snapshot.liveObjects ∧
    h.snapshot.immortalObjects = 3 + c.internedRange.count := by
  have wf := reached.wellFormed
  obtain ⟨hi, hl, -⟩ := reached.layout
  refine ⟨hl ▸ wf.accounted, wf.snapshot_total, h.sum_objectsByType, ?_⟩
  rw [wf.snapshot_immortal, hi]
  rfl

/-- References that name nothing live: a tuple is made of a dead short and of a slot
that does not exist yet, the tuple itself takes the slot of the former, and both are
given back more often than they were taken. -/
def forgedRequests : List (Request Stock.Name) :=
  [.short 300, .release ⟨3⟩, .tuple [⟨3⟩, ⟨9⟩], .release ⟨3⟩, .short 400, .release ⟨4⟩]

/-- All slots are accounted for after releases that did not fit. -/
theorem slots_accounted_forged : ∃ h : Heap Stock.Name, Reached (Stock.host 8) (.ofConfig { shortRange := ⟨0, 0⟩ }) h ∧
    h.violations = 2 ∧ h.Accounted none ∧
    h.snapshot.liveObjects + h.snapshot.parkedBlocks + h.snapshot.vacantSlots = h.snapshot.totalSlots := by
  have hrun : ((Stock.host 8).performAll forgedRequests (.ofConfig { shortRange := ⟨0, 0⟩ })).toOption.map
      Heap.violations = some 2 := by decide +kernel
  obtain ⟨h, hp, hv⟩ := Option.map_eq_some_iff.mp hrun
  have reached : Reached (Stock.host 8) (.ofConfig { shortRange := ⟨0, 0⟩ }) h := by
    cases hx : (Stock.host 8).performAll forgedRequests (.ofConfig { shortRange := ⟨0, 0⟩ }) with
    | error f =>
      rw [hx] at hp
      cases hp
    | ok g =>
      rw [hx] at hp
      cases hp
      exact .performAll .start hx
  obtain ⟨accounted, adds, -⟩ := slots_accounted reached
  exact ⟨h, reached, hv, accounted, adds⟩

end CountedHeap
