/-
# One object for an interned value

A heap interns `None`, the two truth values, and of the configured shorts those
that are less than 65536 above the first. Each of them is one object from the
start to the end of every run, with forged references too: a release that would
take it out is refused, and no operation makes a second object like it, since each
asks for the interned one first (`Reached.evolves_sparing`). So all that a request
for such a value does is to count one reference more.

Key definitions: `Config.Interns`, `Heap.OnlyAt`, `Heap.Sole`.
Key theorems: `Config.mem_internedRange`, `Interned.find?_eq_some_iff`,
`interning_permanent`.
-/
import CountedHeap.Proofs.Failure
import CountedHeap.Proofs.Meaning

namespace CountedHeap

variable {κ : Role → Type}

/-! ### Which shorts are interned -/

instance : Membership Int32 ShortRange := ⟨fun range v => range.start ≤ v ∧ v < range.stop⟩

instance (v : Int32) (range : ShortRange) : Decidable (v ∈ range) :=
  inferInstanceAs (Decidable (range.start ≤ v ∧ v < range.stop))

theorem ShortRange.mem_iff {range : ShortRange} {v : Int32} :
    v ∈ range ↔ range.start.toInt ≤ v.toInt ∧ v.toInt < range.stop.toInt :=
  and_congr Int32.le_iff_toInt_le Int32.lt_iff_toInt_lt

namespace Config

/-- Whether a heap of the configuration interns a payload. -/
def Interns (c : Config) : Payload → Prop
  | .none | .bool _ => True
  | .short v => v ∈ c.shortRange ∧ v.toInt - c.shortRange.start.toInt < 65536
  | .tuple _ | .host _ => False

/-- A range is cut after 65536 values, or nowhere if there are not as many shorts above its start. -/
theorem cutAfter_cases (start : Int32) :
    (cutAfter start).toInt = start.toInt + 65536 ∨
    (cutAfter start).toInt = 2147483647 ∧ 2147483647 < start.toInt + 65536 := by
  have hlow := start.le_toInt
  unfold cutAfter Word.ofInt? maxInterned
  split
  · rename_i hfits
    left
    exact Int32.toInt_ofInt_of_le hfits.1 (Int.lt_of_le_of_lt hfits.2 (by decide))
  · right
    refine ⟨rfl, ?_⟩
    omega

/-- **A short is interned if it is configured and less than 65536 above the start.** -/
theorem mem_internedRange {c : Config} {v : Int32} : v ∈ c.internedRange ↔ c.Interns (.short v) := by
  have hhigh := c.shortRange.stop.toInt_lt
  show _ ↔ v ∈ c.shortRange ∧ v.toInt - c.shortRange.start.toInt < 65536
  unfold internedRange
  rw [ShortRange.mem_iff, ShortRange.mem_iff]
  split
  · rename_i hcut
    rw [Int32.lt_iff_toInt_lt] at hcut
    show c.shortRange.start.toInt ≤ v.toInt ∧ v.toInt < (cutAfter c.shortRange.start).toInt ↔ _
    -- no range ends above the last short, so it was cut after 65536 values
    rcases cutAfter_cases c.shortRange.start with hc | ⟨hc, -⟩ <;> omega
  · rename_i hcut
    rw [Int32.lt_iff_toInt_lt] at hcut
    have := v.toInt_lt
    rcases cutAfter_cases c.shortRange.start with hc | ⟨hc, hend⟩ <;> omega

end Config

/-! ### Where the interned objects are -/

namespace Interned

variable {i : Interned} {payload : Payload} {r : Ref}

theorem short?_eq_some_iff {v : Int32} :
    i.short? v = some r ↔ v ∈ i.shorts ∧ r.index = firstShort + (v.toInt - i.shorts.start.toInt).toNat := by
  unfold short?
  split
  · rename_i hv
    rw [Option.some.injEq]
    exact ⟨fun h => ⟨hv, (congrArg Ref.index h).symm⟩, fun h => congrArg Ref.mk h.2.symm⟩
  · rename_i hv
    exact ⟨nofun, fun h => absurd h.1 hv⟩

/-- The first slots are the same whatever is interned. -/
theorem slots_first (i : Interned) : i.slots[0]? = some (immortal .none .none) ∧
    i.slots[1]? = some (immortal .bool (.bool false)) ∧ i.slots[2]? = some (immortal .bool (.bool true)) := by
  unfold slots
  simp [Array.getElem?_append]

theorem slots_short (i : Interned) (n : Nat) : i.slots[n + 3]? =
    if n < i.shorts.count then some (immortal .short (.short (Int32.ofInt (i.shorts.start.toInt + n))))
    else Option.none := by
  unfold slots
  rw [Array.getElem?_append, if_neg (by simp), Array.getElem?_map]
  show Option.map _ (Array.range i.shorts.count)[n]? = _
  rw [Array.getElem?_range]
  split <;> rfl

/-- The value of the short at some distance from the start. -/
theorem toInt_ofInt_start {n : Nat} (hn : n < i.shorts.count) :
    (Int32.ofInt (i.shorts.start.toInt + n)).toInt = i.shorts.start.toInt + n := by
  have hlow := i.shorts.start.le_toInt
  have hhigh := i.shorts.stop.toInt_lt
  unfold ShortRange.count at hn
  apply Int32.toInt_ofInt_of_le <;> omega

/-- **The interned objects are found where the heap puts them at the start**, and no others are there. -/
theorem find?_eq_some_iff : i.find? payload = some r ↔ ∃ type, i.slots[r.index]? = some (immortal type payload) := by
  obtain ⟨n⟩ := r
  obtain ⟨hnone, hfalse, htrue⟩ := i.slots_first
  constructor
  · intro found
    cases payload with
    | none =>
      cases found
      exact ⟨_, hnone⟩
    | bool value =>
      cases value <;> cases found
      · exact ⟨_, hfalse⟩
      · exact ⟨_, htrue⟩
    | short v =>
      obtain ⟨hv, hn⟩ := short?_eq_some_iff.mp found
      obtain ⟨hlow, hhigh⟩ := ShortRange.mem_iff.mp hv
      obtain ⟨k, hk⟩ := Int.le.dest hlow
      have hn : n = k + 3 := by
        have : n = 3 + _ := hn
        omega
      have hcount : k < i.shorts.count := by
        unfold ShortRange.count
        omega
      subst hn
      exact ⟨.short, by rw [slots_short, if_pos hcount, hk, Int32.ofInt_toInt]⟩
    | tuple | host => cases found
  · rintro ⟨type, hs⟩
    match n, hs with
    | 0, hs =>
      cases hnone.symm.trans hs
      rfl
    | 1, hs =>
      cases hfalse.symm.trans hs
      rfl
    | 2, hs =>
      cases htrue.symm.trans hs
      rfl
    | n + 3, hs =>
      rw [slots_short] at hs
      split at hs
      · rename_i hn
        cases hs
        have hvalue := toInt_ofInt_start hn
        unfold ShortRange.count at hn
        refine short?_eq_some_iff.mpr ⟨ShortRange.mem_iff.mpr ?_, ?_⟩
        · omega
        · show n + 3 = 3 + _
          omega
      · cases hs

theorem Original.eq_immortal {o : Object} (original : Original o) : Slot.live o = Interned.immortal o.type o.payload := by
  obtain ⟨refcount, type, length, size, immortal, payload⟩ := o
  obtain ⟨rfl, rfl, rfl, rfl, -, -, -⟩ := original
  rfl

end Interned

/-! ### No second object like an interned one -/

namespace Heap

/-- Slot `r` is the only one with a live object of this payload. -/
def OnlyAt (h : Heap κ) (payload : Payload) (r : Ref) : Prop :=
  ∀ r', (∃ o, h.object? r' = some o ∧ o.payload = payload) ↔ r' = r

/-- A live object like an interned one is that one. -/
def Sole (h : Heap κ) : Prop :=
  ∀ r o r', h.object? r = some o → h.interned.find? o.payload = some r' → r = r'

theorem sole_ofConfig (c : Config) : (Heap.ofConfig c : Heap κ).Sole := by
  intro r o r' live found
  have hs : (Interned.mk c.internedRange).slots[r.index]? = some (.live o) := slot_of_object? live
  obtain ⟨o', ho', original⟩ := Interned.slots_original _ hs
  cases ho'
  rw [original.eq_immortal] at hs
  have hr : (Interned.mk c.internedRange).find? o.payload = some r := Interned.find?_eq_some_iff.mpr ⟨_, hs⟩
  exact Option.some.inj (hr.symm.trans found)

end Heap

/-- A step that makes no object like an interned one leaves each of them alone. -/
theorem Change.sole {h g : Heap κ} {a : Act} (c : Change h a g) (wf : h.WellFormed)
    (spares : a.Spares h.interned) (sole : h.Sole) : g.Sole := by
  intro r o r' live found
  have fate := c.fate wf r
  rw [c.layout.1] at found
  rw [live] at fate
  cases hr : h.object? r with
  | none =>
    rw [hr] at fate
    cases fate with
    | begins made =>
      subst made
      rw [show h.interned.find? o.payload = none from spares] at found
      cases found
  | some o' =>
    rw [hr] at fate
    cases fate with
    | lasts n => exact sole r o' r' hr found

theorem Trace.sole {h g : Heap κ} {acts : List Act} (t : Trace h acts g) (wf : h.WellFormed)
    (spares : ∀ a ∈ acts, a.Spares h.interned) (sole : h.Sole) : g.Sole := by
  induction t with
  | nil => exact sole
  | cons c _ ih =>
    obtain ⟨first, rest⟩ := List.forall_mem_cons.mp spares
    refine ih (c.wellFormed wf) (fun a ha => ?_) (c.sole wf first sole)
    rw [c.layout.1]
    exact rest a ha

namespace Heap

variable {h : Heap κ} {c : Config} {payload : Payload} {r : Ref}

/-- An interned object is where it is looked for, and it is immortal. -/
theorem WellFormed.find?_object (wf : h.WellFormed) (found : h.interned.find? payload = some r) :
    ∃ o, h.object? r = some o ∧ o.payload = payload ∧ o.immortal = true := by
  obtain ⟨type, hs⟩ := Interned.find?_eq_some_iff.mp found
  have hlt : r.index < h.interned.count := by
    rw [← Interned.slots_size]
    exact (Array.getElem?_eq_some_iff.mp hs).1
  obtain ⟨o, n, hs', live⟩ := wf.interned r hlt
  rw [hs] at hs'
  cases hs'
  exact ⟨_, live, rfl, rfl⟩

theorem Sole.onlyAt (sole : h.Sole) (wf : h.WellFormed) (found : h.interned.find? payload = some r) :
    h.OnlyAt payload r := by
  intro r'
  constructor
  · rintro ⟨o, live, rfl⟩
    exact sole r' o r live found
  · rintro rfl
    obtain ⟨o, live, hp, -⟩ := wf.find?_object found
    exact ⟨o, live, hp⟩

/-- An immortal object is an interned one. -/
theorem WellFormed.find?_of_immortal (wf : h.WellFormed) {o : Object} (live : h.object? r = some o)
    (immortal : o.immortal = true) : h.interned.find? o.payload = some r := by
  obtain ⟨o', n, hs, live'⟩ := wf.interned r (wf.immortal r o live immortal)
  rw [live] at live'
  cases live'
  obtain ⟨o'', ho'', original⟩ := Interned.slots_original _ hs
  cases ho''
  exact Interned.find?_eq_some_iff.mpr ⟨_, hs.trans (congrArg some original.eq_immortal)⟩

/-- What is interned is what the configuration says. -/
theorem find?_interns (hi : h.interned = ⟨c.internedRange⟩) (payload : Payload) :
    (∃ r, h.interned.find? payload = some r) ↔ c.Interns payload := by
  rw [hi]
  cases payload with
  | none => exact ⟨fun _ => trivial, fun _ => ⟨_, rfl⟩⟩
  | bool value => exact ⟨fun _ => trivial, fun _ => ⟨_, rfl⟩⟩
  | short v =>
    rw [← Config.mem_internedRange]
    constructor
    · rintro ⟨r, found⟩
      exact (Interned.short?_eq_some_iff.mp found).1
    · intro hv
      exact ⟨⟨_⟩, Interned.short?_eq_some_iff.mpr ⟨hv, rfl⟩⟩
  | tuple | host => exact ⟨nofun, nofun⟩

/-- A request for an interned object finds it live. -/
theorem hit_eq {o : Object} (live : h.object? r = some o) :
    hit r h = .ok (r, (h.emit (.hit r)).setSlot r (.live { o with refcount := o.refcount + 1 })) := by
  unfold hit newRef acquire
  rw [show (h.emit (.hit r)).object? r = some o from live]
  rfl

theorem short_of_hit {g : Heap κ} {v : Int32} (found : h.interned.short? v = some r) (done : hit r h = .ok (r, g)) :
    short v h = .ok (.ok r, g) := by
  unfold short
  rw [found]
  show (hit r h >>= fun p => pure (.ok p.1, p.2) : Except Fault (Except RunError Ref × Heap κ)) = _
  rw [done]
  rfl

/-- A new object is in a slot that was not live. -/
theorem construct_new (wf : h.WellFormed) {type : TypeId} {d : Descriptor κ} (found : h.types.get? type = some d)
    (payload : Payload) :
    Ends (fun _ => True) (fun p => ∀ r, p.1 = .ok r → h.object? r = .none ∧
      p.2.object? r = some (.fresh type d payload)) (construct type payload h) := by
  unfold construct
  refine Ends.bind (P := fun d' => d = d') (by unfold Registry.get; rw [found]; rfl) fun d' hd => ?_
  subst hd
  refine Ends.bind (Ends.self fun _ _ => trivial) fun p taken => ?_
  obtain ⟨result, g⟩ := p
  cases result with
  | error e => exact fun _ hr => nomatch hr
  | ok r =>
    intro r' hr
    cases hr
    obtain ⟨dead, w, -⟩ := Change.make_writes wf (.fresh type d payload) taken
    exact ⟨dead, w.object?_self⟩

/-- A short that is not interned is a new object. -/
theorem short_new (wf : h.WellFormed) {v : Int32} (missed : h.interned.short? v = .none) :
    Ends (fun _ => True) (fun p => ∀ r, p.1 = .ok r → h.object? r = .none ∧
      p.2.object? r = some (.fresh .short (Registry.shortType (κ := κ)) (.short v))) (short v h) := by
  unfold short
  rw [missed]
  exact construct_new wf (wf.builtin .short rfl) (.short v)

end Heap

/-- What the host answers if a value is asked for that may be interned. -/
def Host.Gives (host : Host κ) (h : Heap κ) (payload : Payload) (r : Ref) (g : Heap κ) : Prop :=
  match payload with
  | .none => host.perform .none h = .ok (r, g)
  | .bool value => host.perform (.bool value) h = .ok (r, g)
  | .short value => host.perform (.short value) h = .ok (.ok r, g)
  | .tuple _ | .host _ => False

/-- Who asks for an interned value gets one reference more to its object. -/
theorem Host.gives_interned (host : Host κ) {h : Heap κ} {payload : Payload} {r : Ref} {o : Object}
    (found : h.interned.find? payload = some r) (live : h.object? r = some o) :
    host.Gives h payload r ((h.emit (.hit r)).setSlot r (.live { o with refcount := o.refcount + 1 })) := by
  obtain ⟨n, inner, hstep⟩ := host.perform_eq_step
  have hhit := Heap.hit_eq live
  cases payload with
  | none =>
    cases found
    exact (congrFun (hstep .none) h).trans hhit
  | bool value =>
    cases found
    exact (congrFun (hstep (.bool value)) h).trans hhit
  | short v => exact (congrFun (hstep (.short v)) h).trans (Heap.short_of_hit found hhit)
  | tuple | host => cases found

/-- **Interning is exact and permanent.** In every heap that can be reached a short is interned if it is configured
and less than 65536 above the start. The object of an interned value is the one it was at the start, the only one
with that value, and immortal; no other object is. Asking for it counts one reference more, is reported, and changes
nothing else. Any other short is a new, mortal object in a slot that was not live. -/
theorem interning_permanent {host : Host κ} {c : Config} {h : Heap κ} (reached : Reached host (.ofConfig c) h) :
    (∀ v, v ∈ h.interned.shorts ↔ v ∈ c.shortRange ∧ v.toInt - c.shortRange.start.toInt < 65536) ∧
    (∀ payload, c.Interns payload → ∃ r o, (Heap.ofConfig c : Heap κ).OnlyAt payload r ∧ h.OnlyAt payload r ∧
      h.object? r = some o ∧ o.payload = payload ∧ o.immortal = true ∧
      host.Gives h payload r ((h.emit (.hit r)).setSlot r (.live { o with refcount := o.refcount + 1 }))) ∧
    (∀ p q r, (Heap.ofConfig c : Heap κ).OnlyAt p r → (Heap.ofConfig c : Heap κ).OnlyAt q r → p = q) ∧
    (∀ r o, h.object? r = some o → o.immortal = true → c.Interns o.payload) ∧
    ∀ v, ¬ c.Interns (.short v) → ∀ r g, host.perform (.short v) h = .ok (.ok r, g) →
      h.object? r = none ∧ g.object? r =
        some { refcount := 1, type := .short, length := 0, size := 16, immortal := false, payload := .short v } := by
  obtain ⟨acts, t, spares⟩ := reached.evolves_sparing
  have wf := reached.wellFormed
  have first := Heap.WellFormed.ofConfig (κ := κ) c
  have hi : h.interned = ⟨c.internedRange⟩ := t.interned
  have sole := t.sole first spares (Heap.sole_ofConfig c)
  refine ⟨fun v => ?_, fun payload hp => ?_, fun p q r hp hq => ?_, fun r o live immortal => ?_, fun v hv r g done => ?_⟩
  · rw [hi]
    exact Config.mem_internedRange
  · obtain ⟨r, found⟩ := (Heap.find?_interns hi payload).mpr hp
    obtain ⟨o, live, payload_eq, immortal⟩ := wf.find?_object found
    have found' : (Heap.ofConfig c : Heap κ).interned.find? payload = some r := t.interned ▸ found
    exact ⟨r, o, (Heap.sole_ofConfig c).onlyAt first found', sole.onlyAt wf found, live, payload_eq, immortal,
      host.gives_interned found live⟩
  · obtain ⟨o, live, rfl⟩ := (hp r).mpr rfl
    obtain ⟨o', live', rfl⟩ := (hq r).mpr rfl
    rw [live] at live'
    cases live'
    rfl
  · exact (Heap.find?_interns hi o.payload).mp ⟨r, wf.find?_of_immortal live immortal⟩
  · have missed : h.interned.short? v = Option.none := by
      rw [Option.eq_none_iff_forall_ne_some]
      exact fun r found => hv ((Heap.find?_interns hi (.short v)).mp ⟨r, found⟩)
    obtain ⟨n, inner, hstep⟩ := host.perform_eq_step
    rw [hstep] at done
    exact (Heap.short_new wf missed).of_ok done r rfl

namespace Stock

/-- All shorts but the largest are configured. -/
def wideConfig : Config := { shortRange := ⟨-2147483648, 2147483647⟩ }

/-- Two shorts below the largest are interned, and there is room for one block. -/
def edgeConfig : Config := { limits := { maxAllocations := some 1 }, shortRange := ⟨2147483645, 2147483647⟩ }

end Stock

/-- Of all shorts the first 65536 are interned. At the other end, after the interned objects
and a slot that is not there have been released, the last short but one is still interned,
and the last one gets a new object. -/
theorem interning_permanent_edges :
    ((-2147418113 : Int32) ∈ (Heap.ofConfig Stock.wideConfig : Heap Stock.Name).interned.shorts ∧
      (-2147418112 : Int32) ∉ (Heap.ofConfig Stock.wideConfig : Heap Stock.Name).interned.shorts) ∧
    ∃ h g : Heap Stock.Name, Reached (Stock.host 8) (.ofConfig Stock.edgeConfig) h ∧ h.violations = 3 ∧
      (∃ r o, (Heap.ofConfig Stock.edgeConfig : Heap Stock.Name).OnlyAt (.short 2147483646) r ∧
        h.OnlyAt (.short 2147483646) r ∧ h.object? r = some o ∧ o.immortal = true ∧
        (Stock.host 8).perform (.short 2147483646) h = .ok (.ok r,
          (h.emit (.hit r)).setSlot r (.live { o with refcount := o.refcount + 1 }))) ∧
      (Stock.host 8).perform (.short 2147483647) h = .ok (.ok ⟨5⟩, g) ∧ h.object? ⟨5⟩ = none ∧
      ∃ o, g.object? ⟨5⟩ = some o ∧ o.payload = .short 2147483647 ∧ o.immortal = false := by
  constructor
  · obtain ⟨interned, -⟩ := interning_permanent
      (Reached.start : Reached (Stock.host 8) (.ofConfig Stock.wideConfig) _)
    exact ⟨(interned _).mpr (by decide), fun h => absurd ((interned _).mp h) (by decide)⟩
  · have hrun : (((Stock.host 8).performAll [.release ⟨4⟩, .short 7, .release ⟨0⟩, .release ⟨5⟩, .release ⟨77⟩]
          (.ofConfig Stock.edgeConfig)).toOption).map
        (fun h => (h.violations, Stock.next? (.short 2147483647) h)) = some (3, some (.ok ⟨5⟩)) := by decide +kernel
    obtain ⟨h, hp, hsee⟩ := Reached.of_performAll _ hrun
    obtain ⟨hviolations, answer⟩ := Prod.mk.inj hsee
    obtain ⟨g, done⟩ := exists_heap_of_answer answer
    have reached : Reached (Stock.host 8) (.ofConfig Stock.edgeConfig) h := .performAll .start hp
    obtain ⟨-, kept, -, -, made⟩ := interning_permanent reached
    obtain ⟨r, o, first, now, live, -, immortal, gives⟩ :=
      kept (.short 2147483646) (show _ ∧ _ from ⟨by decide, by decide⟩)
    obtain ⟨dead, new⟩ := made 2147483647 (fun h : _ ∧ _ => absurd h.1 (by decide)) ⟨5⟩ g done
    exact ⟨h, g, reached, hviolations, ⟨r, o, first, now, live, immortal, gives⟩, done, dead, _, new, rfl, rfl⟩

end CountedHeap
