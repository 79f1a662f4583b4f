/-
# Well-formed heaps

What holds of every heap that operations can reach, whatever references they are
given: the store is in order, each live object shows what its type and payload
demand, the built-in types are the first four, and the interned objects are in
their slots and are the only immortal ones. A single step keeps all of it
(`Change.wellFormed`), and once it holds the effect of a step on the slots can be
said without conditions (`Change.effect`).
-/
import CountedHeap.Proofs.Arena
import CountedHeap.Proofs.Change

namespace CountedHeap

variable {κ : Role → Type}

/-- A list without its repetitions has none. -/
theorem nodup_eraseDups : ∀ l : List Nat, l.eraseDups.Nodup
  | [] => by
    rw [List.eraseDups_nil]
    exact List.nodup_nil
  | a :: l => by
    rw [List.eraseDups_cons]
    refine List.nodup_cons.mpr ⟨fun h => ?_, nodup_eraseDups _⟩
    have := List.mem_eraseDups.mp h
    simp at this
termination_by l => l.length
decreasing_by
  simp only [List.length_cons]
  exact Nat.lt_succ_of_le (List.length_filter_le _ _)

/-- The header of an object agrees with its type and its payload. -/
structure Object.Proper (types : Registry κ) (o : Object) : Prop where
  counted : 1 ≤ o.refcount
  sized : ∃ d, types.get? o.type = some d ∧ o.size = d.blockSize o.length
  fits : o.payload.Fits o.type
  length : o.length = o.payload.children.length

structure Heap.WellFormed (h : Heap κ) : Prop where
  store : ∃ chain, h.store.Formed chain
  objects : ∀ r o, h.object? r = some o → o.Proper h.types
  builtin : ∀ t : TypeId, t.isBuiltin = true → h.types.get? t = Registry.builtin.get? t
  /-- An interned object differs from what it was at the start in its count only. -/
  interned : ∀ r : Ref, r.index < h.interned.count → ∃ o n,
    h.interned.slots[r.index]? = some (.live o) ∧ h.object? r = some { o with refcount := n }
  immortal : ∀ r o, h.object? r = some o → o.immortal = true → r.index < h.interned.count

/-- What a step does to the slots. -/
def Act.Effect (s s' : Store) : Act → Prop
  | .acquire r => ∃ o, s.object? r = some o ∧ s.Writes s' r (.live { o with refcount := o.refcount + 1 })
  | .drop r => ∃ o, s.object? r = some o ∧ 1 < o.refcount ∧
      s.Writes s' r (.live { o with refcount := o.refcount - 1 })
  | .bury r dead => s.object? r = some dead ∧ dead.refcount = 1 ∧ dead.immortal = false ∧
      ∃ free : Slot, free.object? = none ∧ s.Writes s' r free
  | .make r new => s.object? r = none ∧ new.refcount = 1 ∧ new.immortal = false ∧ s.Writes s' r (.live new)
  | _ => s' = s

namespace Registry

variable {g g' : Registry κ} {d d' : Descriptor κ} {t type : TypeId}

/-- A registered type keeps its descriptor. -/
theorem get?_register (added : g.register d = .ok (type, g')) (found : g.get? t = some d') : g'.get? t = some d' := by
  unfold register at added
  split at added
  · simp only [Except.ok.injEq, Prod.mk.injEq] at added
    obtain ⟨-, rfl⟩ := added
    unfold get? at found ⊢
    obtain ⟨hlt, -⟩ := Array.getElem?_eq_some_iff.mp found
    rw [Array.getElem?_push, if_neg (Nat.ne_of_lt hlt)]
    exact found
  · cases added

/-- The four built-in types are there from the start. -/
theorem builtin_get? (h : t.isBuiltin = true) : ∃ d : Descriptor κ, builtin.get? t = some d := by
  have hlt : t.index < 4 := by
    unfold TypeId.isBuiltin TypeId.tuple at h
    simp only [decide_eq_true_eq] at h
    omega
  exact ⟨_, Array.getElem?_eq_getElem hlt⟩

end Registry

namespace Interned

theorem slots_size (i : Interned) : i.slots.size = i.count := by
  unfold slots count firstShort
  simp

/-- An interned object as it is at the start. -/
structure Original (o : Object) : Prop where
  refcount : o.refcount = 1
  immortal : o.immortal = true
  size : o.size = 16
  length : o.length = 0
  children : o.payload.children = []
  type : o.type = .none ∨ o.type = .bool ∨ o.type = .short
  fits : o.payload.Fits o.type

theorem original_immortal {type : TypeId} {payload : Payload} (hc : payload.children = [])
    (ht : type = .none ∨ type = .bool ∨ type = .short) (hf : payload.Fits type) :
    ∃ o, immortal type payload = .live o ∧ Original o :=
  ⟨_, rfl, rfl, rfl, rfl, rfl, hc, ht, hf⟩

/-- All slots at the start hold interned objects. -/
theorem slots_original (i : Interned) {n : Nat} {slot : Slot} (h : i.slots[n]? = some slot) :
    ∃ o, slot = .live o ∧ Original o := by
  have hmem : slot ∈ i.slots := Array.mem_of_getElem? h
  unfold slots at hmem
  simp only [Array.mem_append, Array.mem_map, List.mem_toArray, List.mem_cons, List.not_mem_nil, or_false] at hmem
  rcases hmem with (rfl | rfl | rfl) | ⟨n, -, rfl⟩
  · exact original_immortal rfl (Or.inl rfl) rfl
  · exact original_immortal rfl (Or.inr (Or.inl rfl)) rfl
  · exact original_immortal rfl (Or.inr (Or.inl rfl)) rfl
  · exact original_immortal rfl (Or.inr (Or.inr rfl)) rfl

theorem short?_lt {i : Interned} {v : Int32} {r : Ref} (h : i.short? v = some r) : r.index < i.count := by
  unfold short? at h
  split at h
  · rename_i hv
    cases h
    obtain ⟨hle, hlt⟩ := hv
    rw [Int32.le_iff_toInt_le] at hle
    rw [Int32.lt_iff_toInt_lt] at hlt
    unfold count ShortRange.count
    simp only
    omega
  · cases h

end Interned

namespace Heap.WellFormed

variable {h g : Heap κ} {r : Ref} {o : Object}

/-- All slots of the heap of a configuration hold interned objects. -/
theorem slots_ofConfig (c : Config) {i : Nat} {slot : Slot}
    (h : (Heap.ofConfig c : Heap κ).store.slots[i]? = some slot) : ∃ o, slot = .live o ∧ Interned.Original o :=
  Interned.slots_original _ h

/-- At the start nothing is vacant and nothing is parked. -/
theorem formed_ofConfig (c : Config) : (Heap.ofConfig c : Heap κ).store.Formed fun _ => [] := by
  refine ⟨List.nodup_nil, fun r => ?_, ?_, fun c' hc' => ?_, fun _ _ => List.nodup_nil, fun c' hc' => ?_,
    fun r next size hs => ?_, fun c' hc' limit _ => ?_⟩
  · refine ⟨fun hin => absurd hin List.not_mem_nil, fun hs => ?_⟩
    obtain ⟨o, ho, -⟩ := slots_ofConfig c hs
    cases ho
  · show ((c.pool.sizeClasses.eraseDups.map ({ size := · } : Nat → SizeClass)).map SizeClass.size).Nodup
    rw [List.map_map]
    exact (List.map_id _).symm ▸ nodup_eraseDups _
  · obtain ⟨n, -, rfl⟩ := List.mem_map.mp hc'
    rfl
  · obtain ⟨n, -, rfl⟩ := List.mem_map.mp hc'
    rfl
  · obtain ⟨o, ho, -⟩ := slots_ofConfig c hs
    cases ho
  · obtain ⟨n, -, rfl⟩ := List.mem_map.mp hc'
    exact Nat.zero_le _

/-- The heap of a configuration is well-formed. -/
theorem ofConfig (c : Config) : (Heap.ofConfig c : Heap κ).WellFormed := by
  have hobject : ∀ (r : Ref) (o : Object), (Heap.ofConfig c : Heap κ).object? r = some o →
      (Heap.ofConfig c : Heap κ).store.slots[r.index]? = some (.live o) ∧ Interned.Original o := by
    intro r o live
    obtain ⟨o', ho', horig⟩ := slots_ofConfig c (slot_of_object? live)
    cases ho'
    exact ⟨slot_of_object? live, horig⟩
  refine ⟨⟨_, formed_ofConfig c⟩, fun r o live => ?_, fun _ _ => rfl, fun r hr => ?_, fun r o live _ => ?_⟩
  · obtain ⟨-, horig⟩ := hobject r o live
    refine ⟨Nat.le_of_eq horig.refcount.symm, ?_, horig.fits, by rw [horig.length, horig.children]; rfl⟩
    rw [horig.size, horig.length]
    rcases horig.type with ht | ht | ht <;> rw [ht]
    · exact ⟨Registry.noneType, rfl, rfl⟩
    · exact ⟨Registry.boolType, rfl, rfl⟩
    · exact ⟨Registry.shortType, rfl, rfl⟩
  · have hlt : r.index < (Interned.mk c.internedRange).slots.size := by
      rw [Interned.slots_size]
      exact hr
    have hs := Array.getElem?_eq_getElem hlt
    obtain ⟨o, ho, -⟩ := Interned.slots_original _ hs
    rw [ho] at hs
    exact ⟨o, o.refcount, hs, object?_of_slot hs⟩
  · obtain ⟨hs, -⟩ := hobject r o live
    have hlt := (Array.getElem?_eq_some_iff.mp hs).1
    exact Nat.lt_of_lt_of_eq hlt (Interned.slots_size _)

/-- Only slots, types and interned objects matter. -/
theorem of_eq (wf : h.WellFormed) (store : g.store = h.store) (types : g.types = h.types)
    (interned : g.interned = h.interned) : g.WellFormed := by
  have hobject : ∀ r, g.object? r = h.object? r := fun r => congrArg (Store.object? · r) store
  refine ⟨store ▸ wf.store, fun r o live => ?_, types ▸ wf.builtin, fun r hr => ?_, fun r o live hi => ?_⟩
  · rw [types]
    exact wf.objects r o (hobject r ▸ live)
  · rw [interned] at hr ⊢
    rw [hobject r]
    exact wf.interned r hr
  · rw [interned]
    exact wf.immortal r o (hobject r ▸ live) hi

/-- A rewritten object, if only its count differs. -/
theorem recount (wf : h.WellFormed) (live : h.object? r = some o) {n : Nat} (hn : 1 ≤ n) :
    (h.setSlot r (.live { o with refcount := n })).WellFormed := by
  have hs := slot_of_object? live
  have w : h.store.Writes (h.store.put r (.live { o with refcount := n })) r _ := Store.writes_put hs _
  obtain ⟨chain, hf⟩ := wf.store
  refine ⟨⟨chain, hf.rewrite hs w rfl rfl rfl⟩, fun a o' ha => ?_, wf.builtin, fun a ha => ?_, fun a o' ha hi => ?_⟩
  · rcases w.object?_cases ha with ⟨-, he⟩ | ⟨-, ha⟩
    · cases he
      have proper := wf.objects r o live
      exact ⟨hn, proper.sized, proper.fits, proper.length⟩
    · exact wf.objects a o' ha
  · obtain ⟨o₀, m, h₀, hm⟩ := wf.interned a ha
    by_cases har : a = r
    · subst har
      rw [live] at hm
      cases hm
      exact ⟨o₀, n, h₀, w.object?_self⟩
    · exact ⟨o₀, m, h₀, (w.object?_other har).trans hm⟩
  · rcases w.object?_cases ha with ⟨rfl, he⟩ | ⟨-, ha⟩
    · cases he
      exact wf.immortal a o live hi
    · exact wf.immortal a o' ha hi

/-- A slot that was live no longer is. -/
theorem remove (wf : h.WellFormed) (live : h.object? r = some o) (mortal : o.immortal = false)
    {free : Slot} (hfree : free.object? = .none) {chain : Nat → List Ref} (hf : g.store.Formed chain)
    (w : h.store.Writes g.store r free) (ht : g.types = h.types) (hi : g.interned = h.interned) : g.WellFormed := by
  have hlive : ∀ a o', g.object? a = some o' → h.object? a = some o' := by
    intro a o' ha
    rcases w.object?_cases ha with ⟨-, he⟩ | ⟨-, ha⟩
    · rw [hfree] at he
      cases he
    · exact ha
  refine ⟨⟨chain, hf⟩, fun a o' ha => ?_, ht ▸ wf.builtin, fun a ha => ?_, fun a o' ha him => ?_⟩
  · rw [ht]
    exact wf.objects a o' (hlive a o' ha)
  · rw [hi] at ha ⊢
    obtain ⟨o₀, m, h₀, hm⟩ := wf.interned a ha
    refine ⟨o₀, m, h₀, ?_⟩
    by_cases har : a = r
    · -- an interned object is immortal
      subst har
      rw [live] at hm
      cases hm
      obtain ⟨o₁, ho₁, horig⟩ := Interned.slots_original _ h₀
      cases ho₁
      rw [horig.immortal] at mortal
      cases mortal
    · exact (w.object?_other har).trans hm
  · rw [hi]
    exact wf.immortal a o' (hlive a o' ha) him

/-- A new object is in a slot that was free. -/
theorem insert (wf : h.WellFormed) (dead : h.object? r = .none) (proper : o.Proper h.types)
    (mortal : o.immortal = false) {chain : Nat → List Ref} (hf : g.store.Formed chain)
    (w : h.store.Writes g.store r (.live o)) (ht : g.types = h.types) (hi : g.interned = h.interned) :
    g.WellFormed := by
  refine ⟨⟨chain, hf⟩, fun a o' ha => ?_, ht ▸ wf.builtin, fun a ha => ?_, fun a o' ha him => ?_⟩
  · rw [ht]
    rcases w.object?_cases ha with ⟨-, he⟩ | ⟨-, ha⟩
    · cases he
      exact proper
    · exact wf.objects a o' ha
  · rw [hi] at ha ⊢
    obtain ⟨o₀, m, h₀, hm⟩ := wf.interned a ha
    have har : a ≠ r := by
      rintro rfl
      rw [dead] at hm
      cases hm
    exact ⟨o₀, m, h₀, (w.object?_other har).trans hm⟩
  · rcases w.object?_cases ha with ⟨-, he⟩ | ⟨-, ha⟩
    · cases he
      rw [mortal] at him
      cases him
    · rw [hi]
      exact wf.immortal a o' ha him

/-- The head of a free list is a parked block. -/
theorem takeParked_ok (wf : h.WellFormed) (size : Nat) : ∃ found, h.store.takeParked size = .ok found := by
  obtain ⟨chain, hf⟩ := wf.store
  unfold Store.takeParked
  split
  · rename_i size' r length hc
    have hl := hf.linked _ (Store.sizeClass?_mem hc).1
    obtain ⟨next, rest, -, hs, -⟩ := hl.head_eq
    rw [hs]
    exact ⟨_, rfl⟩
  · exact ⟨_, rfl⟩

/-- The last reference to go is the only one, and it is not the heap's own. -/
theorem dies (wf : h.WellFormed) (hv : h.verdict r = .dies o) :
    h.object? r = some o ∧ o.refcount = 1 ∧ o.immortal = false := by
  obtain ⟨live, hle, him⟩ := verdict_dies hv
  have hge := (wf.objects r o live).counted
  refine ⟨live, by omega, ?_⟩
  by_contra hne
  rw [Bool.not_eq_false] at hne
  exact him ⟨hne, by omega⟩

end Heap.WellFormed

/-! ### A step keeps a heap well-formed -/

namespace Change

variable {h g : Heap κ} {a : Act}

/-- The new object of a step is in a slot that was free. -/
theorem make_writes (wf : h.WellFormed) {r : Ref} {name : String} {size : Nat} (o : Object)
    (taken : h.takeBlock name size = .ok (.ok r, g)) :
    h.object? r = none ∧ h.store.Writes (g.store.put r (.live o)) r (.live o) ∧
      (∃ chain, (g.store.put r (.live o)).Formed chain) ∧ g.types = h.types ∧ g.interned = h.interned := by
  obtain ⟨chain, hf⟩ := wf.store
  rcases Heap.takeBlock_cases taken with ⟨c, next, n, hc, hhead, hp, rfl⟩ | ⟨ledger, -, -, rfl, rfl⟩
  · refine ⟨?_, Store.writes_put (s := { h.store with classes := _ }) hp _, ⟨_, hf.reuse hc hhead hp⟩, rfl, rfl⟩
    unfold Heap.object? Store.object?
    rw [hp]
    rfl
  · obtain ⟨w, hfree⟩ := hf.writes_fresh (o := o)
    refine ⟨?_, w, ⟨_, hf.fill⟩, rfl, rfl⟩
    unfold Heap.object? Store.object?
    rcases hfree with hfree | hfree
    · rw [hfree]
      rfl
    · rw [hfree, Array.getElem?_eq_none (Nat.le_refl _)]
      rfl

/-- A dead object leaves its slot free. -/
theorem bury_writes (wf : h.WellFormed) {r : Ref} {o : Object} (live : h.object? r = some o) :
    (∃ free : Slot, free.object? = none ∧ h.store.Writes (h.bury r o).store r free) ∧
      (∃ chain, (h.bury r o).store.Formed chain) ∧ (h.bury r o).types = h.types ∧
      (h.bury r o).interned = h.interned := by
  obtain ⟨chain, hf⟩ := wf.store
  have hs := Heap.slot_of_object? live
  rcases Heap.bury_cases h r o with ⟨c, -, hroom, he⟩ | he <;> rw [he]
  · exact ⟨⟨_, rfl, Store.writes_put hs _⟩, ⟨_, hf.park hs hroom⟩, rfl, rfl⟩
  · exact ⟨⟨_, rfl, Store.writes_put hs _⟩, ⟨_, hf.vacate hs⟩, rfl, rfl⟩

theorem wellFormed (c : Change h a g) (wf : h.WellFormed) : g.WellFormed := by
  cases c with
  | acquire live => exact wf.recount live (Nat.succ_le_succ (Nat.zero_le _))
  | drop kept =>
    obtain ⟨live, hlt⟩ := Heap.verdict_kept kept
    exact wf.recount live (by omega)
  | bury dies =>
    obtain ⟨live, -, mortal⟩ := wf.dies dies
    obtain ⟨⟨free, hfree, w⟩, ⟨chain, hf⟩, ht, hi⟩ := bury_writes wf live
    exact wf.remove live mortal hfree hf w ht hi
  | make found fits taken =>
    obtain ⟨dead, w, ⟨chain, hf⟩, ht, hi⟩ := make_writes wf (.fresh _ _ _) taken
    exact wf.insert dead ⟨Nat.le_refl _, ⟨_, found, rfl⟩, fits, rfl⟩ rfl hf w ht hi
  | hit | dispatch | skip | setDepth | withTracker | withSink => exact wf.of_eq rfl rfl rfl
  | register added =>
    refine ⟨wf.store, fun r o live => ?_, fun t ht => ?_, wf.interned, wf.immortal⟩
    · obtain ⟨hc, ⟨d, hd, hsize⟩, hfit, hlen⟩ := wf.objects r o live
      exact ⟨hc, ⟨d, Registry.get?_register added hd, hsize⟩, hfit, hlen⟩
    · obtain ⟨d, hd⟩ := Registry.builtin_get? (κ := κ) ht
      rw [hd]
      exact Registry.get?_register added ((wf.builtin t ht).trans hd)

theorem effect (c : Change h a g) (wf : h.WellFormed) : a.Effect h.store g.store := by
  cases c with
  | acquire live => exact ⟨_, live, Store.writes_put (Heap.slot_of_object? live) _⟩
  | drop kept =>
    obtain ⟨live, hlt⟩ := Heap.verdict_kept kept
    exact ⟨_, live, hlt, Store.writes_put (Heap.slot_of_object? live) _⟩
  | bury dies =>
    obtain ⟨live, hone, mortal⟩ := wf.dies dies
    exact ⟨live, hone, mortal, (bury_writes wf live).1⟩
  | make found fits taken =>
    obtain ⟨dead, w, -⟩ := make_writes wf (.fresh _ _ _) taken
    exact ⟨dead, rfl, rfl, w⟩
  | hit | dispatch | skip | register | setDepth | withTracker | withSink => rfl

/-- What no step changes: the interned range, the sizes of the classes and their limit. -/
theorem layout (c : Change h a g) :
    g.interned = h.interned ∧ g.store.classLimit = h.store.classLimit ∧
      g.store.classes.map SizeClass.size = h.store.classes.map SizeClass.size := by
  cases c with
  | @bury r o _ =>
    rcases Heap.bury_cases h r o with ⟨k, -, -, he⟩ | he <;> rw [he]
    · exact ⟨rfl, rfl, SizeClass.map_size_update _ _⟩
    · exact ⟨rfl, rfl, rfl⟩
  | make found fits taken =>
    rcases Heap.takeBlock_cases taken with ⟨k, next, n, -, -, -, rfl⟩ | ⟨ledger, -, -, -, rfl⟩
    · exact ⟨rfl, rfl, SizeClass.map_size_update _ _⟩
    · exact ⟨rfl, h.store.takeFresh_classLimit, congrArg _ h.store.takeFresh_classes⟩
  | acquire | drop | hit | dispatch | skip | register | setDepth | withTracker | withSink => exact ⟨rfl, rfl, rfl⟩

end Change

theorem Trace.wellFormed {h g : Heap κ} {acts : List Act} (t : Trace h acts g) (wf : h.WellFormed) :
    g.WellFormed :=
  t.induct (fun c => c.wellFormed) wf

end CountedHeap
