/-
# What a reference means does not change

Slots are used again, so a reference means something only as long as its object
stays. Two things are shown. In any run, with forged references too, the object in
a slot changes in its count only, from the step that makes it to the step that
takes it out (`Change.fate`). And in a balanced run the object of a reference that
is held stays where it is, and so do its items, each kept by the tuple that owns
it: the whole tree below the reference is the same at the end (`Deals.value?_kept`).

Key definitions: `Value`, `Heap.value?`, `Fate`.
Key theorem: `meaning_kept`.
-/
import CountedHeap.Proofs.Balance
import CountedHeap.Proofs.Evolution

namespace CountedHeap

variable {κ : Role → Type}

/-! ### The life of a slot -/

/-- What one step may do to the object in the slot of `r`. -/
inductive Fate (a : Act) (r : Ref) : Option Object → Option Object → Prop
  | free : Fate a r none none
  /-- Only the count may differ. -/
  | lasts {o : Object} (n : Nat) : Fate a r (some o) (some { o with refcount := n })
  | begins {new : Object} (made : a = .make r new) : Fate a r none (some new)
  | ends {dead : Object} (buried : a = .bury r dead) : Fate a r (some dead) none

theorem Fate.same (a : Act) (r : Ref) : ∀ x : Option Object, Fate a r x x
  | none => .free
  | some o => .lasts o.refcount

/-- An object comes by an allocation, goes by a release, and is not changed in between. -/
theorem Change.fate {h g : Heap κ} {a : Act} (c : Change h a g) (wf : h.WellFormed) (r : Ref) :
    Fate a r (h.object? r) (g.object? r) := by
  have other : ∀ {r' : Ref} {new : Slot}, h.store.Writes g.store r' new → r ≠ r' →
      Fate a r (h.object? r) (g.object? r) := by
    intro r' new w hr
    have he : g.object? r = h.object? r := w.object?_other hr
    rw [he]
    exact .same a r _
  have quiet : g.store = h.store → Fate a r (h.object? r) (g.object? r) := by
    intro hs
    have he : g.object? r = h.object? r := congrArg (Store.object? · r) hs
    rw [he]
    exact .same a r _
  have effect := c.effect wf
  cases a with
  | acquire r' =>
    obtain ⟨o, live, w⟩ := effect
    by_cases hr : r = r'
    · subst hr
      rw [show h.object? r = some o from live, show g.object? r = _ from w.object?_self]
      exact .lasts _
    · exact other w hr
  | drop r' =>
    obtain ⟨o, live, -, w⟩ := effect
    by_cases hr : r = r'
    · subst hr
      rw [show h.object? r = some o from live, show g.object? r = _ from w.object?_self]
      exact .lasts _
    · exact other w hr
  | bury r' dead =>
    obtain ⟨live, -, -, free, hfree, w⟩ := effect
    by_cases hr : r = r'
    · subst hr
      rw [show h.object? r = some dead from live, show g.object? r = none from w.object?_self.trans hfree]
      exact .ends rfl
    · exact other w hr
  | make r' new =>
    obtain ⟨dead, -, -, w⟩ := effect
    by_cases hr : r = r'
    · subst hr
      rw [show h.object? r = none from dead, show g.object? r = some new from w.object?_self]
      exact .begins rfl
    · exact other w hr
  | hit | dispatch | skip | register | setDepth | configure => exact quiet effect

/-- Along a trace an object is the same but for its count, as long as it is not taken out. -/
theorem Trace.object_lasts {h g : Heap κ} {acts : List Act} (t : Trace h acts g) (wf : h.WellFormed) {r : Ref}
    {o : Object} (live : h.object? r = some o) (stays : ∀ dead, .bury r dead ∉ acts) :
    ∃ n, g.object? r = some { o with refcount := n } := by
  induction t generalizing o with
  | nil => exact ⟨o.refcount, live⟩
  | @cons h g h' a acts c _ ih =>
    have fate := c.fate wf r
    rw [live] at fate
    cases hg : g.object? r with
    | none =>
      rw [hg] at fate
      cases fate with
      | ends buried => exact absurd (buried ▸ List.mem_cons_self) (stays o)
    | some o' =>
      rw [hg] at fate
      cases fate with
      | lasts n =>
        obtain ⟨m, hm⟩ := ih (c.wellFormed wf) hg fun dead hd => stays dead (List.mem_cons_of_mem a hd)
        exact ⟨m, hm⟩

/-! ### Values -/

/-- What a reference denotes: type and payload, where the items of a tuple are values. -/
inductive Value where
  | leaf (type : TypeId) (payload : Payload)
  | tuple (type : TypeId) (items : List Value)

/-- The value of a reference, if the tree below it has fewer than `n` levels and all
of it is live. -/
def Heap.value? (h : Heap κ) : Nat → Ref → Option Value
  | 0, _ => .none
  | n + 1, r => (h.object? r).bind fun o =>
    match o.payload with
    | .tuple items => (items.mapM (h.value? n)).map (.tuple o.type)
    | payload => some (.leaf o.type payload)

section Lists

variable {α β : Type}

theorem mapM_mono {f g : α → Option β} : ∀ {l : List α} {bs : List β}, (∀ a ∈ l, ∀ b, f a = some b → g a = some b) →
    l.mapM f = some bs → l.mapM g = some bs
  | [], bs, _, hf => hf
  | a :: l, bs, hg, hf => by
    simp only [List.mapM_cons, Option.bind_eq_bind, Option.bind_eq_some_iff] at hf ⊢
    obtain ⟨b, hb, bs', hbs, he⟩ := hf
    exact ⟨b, hg a List.mem_cons_self b hb, bs', mapM_mono (fun a ha => hg a (List.mem_cons_of_mem _ ha)) hbs, he⟩

theorem exists_mapM {f : α → Option β} : ∀ {l : List α}, (∀ a ∈ l, ∃ b, f a = some b) → ∃ bs, l.mapM f = some bs
  | [], _ => ⟨[], rfl⟩
  | a :: l, hf => by
    obtain ⟨b, hb⟩ := hf a List.mem_cons_self
    obtain ⟨bs, hbs⟩ := exists_mapM fun a ha => hf a (List.mem_cons_of_mem _ ha)
    exact ⟨b :: bs, by simp [List.mapM_cons, hb, hbs]⟩

end Lists

namespace Heap

variable {h g : Heap κ} {held rest : Multiset Ref}

/-- Where the objects of `h` and their items are those of `g`, but for their counts,
the values are the same, and looking deeper does not change them. -/
theorem value?_mono {S : Ref → Prop}
    (closed : ∀ r, S r → ∀ o, h.object? r = some o →
      (∃ k, g.object? r = some { o with refcount := k }) ∧ ∀ a ∈ o.payload.children, S a) :
    ∀ {n m : Nat} {r : Ref} {v : Value}, n ≤ m → S r → h.value? n r = some v → g.value? m r = some v
  | n + 1, m + 1, r, v, hle, hr, hv => by
    obtain ⟨o, live, hv⟩ := Option.bind_eq_some_iff.mp hv
    obtain ⟨⟨k, live'⟩, items⟩ := closed r hr o live
    refine Option.bind_eq_some_iff.mpr ⟨_, live', ?_⟩
    cases hp : o.payload with
    | tuple refs =>
      rw [hp] at hv items
      obtain ⟨vs, hvs, hv⟩ := Option.map_eq_some_iff.mp hv
      refine Option.map_eq_some_iff.mpr ⟨vs, mapM_mono (fun a ha w hw => ?_) hvs, hv⟩
      exact value?_mono closed (Nat.le_of_succ_le_succ hle) (items a ha) hw
    | none | bool | short | host =>
      rw [hp] at hv
      exact hv

/-- In balanced books every live object has a value. -/
theorem Balanced.exists_value? (b : h.Balanced held) {r : Ref} (live : ∃ o, h.object? r = some o) :
    ∃ v n, ∀ m, n ≤ m → h.value? m r = some v := by
  obtain ⟨rank, hrank⟩ := b.ranked
  -- one level more than the rank is deep enough
  have defined : ∀ n r, rank r < n → (∃ o, h.object? r = some o) → ∃ v, h.value? n r = some v := by
    intro n
    induction n with
    | zero => exact fun r hr => absurd hr (Nat.not_lt_zero _)
    | succ n ih =>
      rintro r hr ⟨o, live⟩
      cases hp : o.payload with
      | tuple items =>
        obtain ⟨vs, hvs⟩ := exists_mapM (f := h.value? n) (l := items) fun a ha => by
          have ha : a ∈ o.payload.children := by rwa [hp]
          have hlt := hrank r o live a ha
          exact ih a (by omega) (b.item_live live ha)
        exact ⟨.tuple o.type vs, Option.bind_eq_some_iff.mpr ⟨o, live, by rw [hp]; simp [hvs]⟩⟩
      | none | bool | short | host =>
        exact ⟨.leaf o.type o.payload, Option.bind_eq_some_iff.mpr ⟨o, live, by rw [hp]⟩⟩
  obtain ⟨v, hv⟩ := defined (rank r + 1) r (Nat.lt_succ_self _) live
  refine ⟨v, rank r + 1, fun m hm => value?_mono (S := fun _ => True) (fun r _ o live => ?_) hm trivial hv⟩
  exact ⟨⟨o.refcount, live⟩, fun _ _ => trivial⟩

end Heap

/-! ### What is held keeps its value -/

/-- An object stays in a step that is made beside someone who holds it or owns it. -/
theorem Change.object_kept {h g : Heap κ} {a : Act} (c : Change h a g) {rest : Multiset Ref}
    (b : h.Balanced (a.spends + rest)) {r : Ref} {o : Object} (live : h.object? r = some o)
    (known : r ∈ rest ∨ 0 < h.store.mentions r) : ∃ k, g.object? r = some { o with refcount := k } := by
  have fate := c.fate b.wellFormed r
  rw [live] at fate
  cases hg : g.object? r with
  | some o' =>
    rw [hg] at fate
    cases fate with
    | lasts n => exact ⟨n, rfl⟩
  | none =>
    rw [hg] at fate
    cases fate with
    | ends buried =>
      -- the step gave back the only reference, so no other is left to hold or own
      subst buried
      obtain ⟨-, one, -⟩ := c.effect b.wellFormed
      obtain ⟨hrest, hment⟩ := b.last live one
      rcases known with hr | hr
      · exact absurd hr (Multiset.count_eq_zero.mp hrest)
      · omega

theorem Change.value?_kept {h g : Heap κ} {a : Act} (c : Change h a g) {rest : Multiset Ref}
    (b : h.Balanced (a.spends + rest)) {n : Nat} {r : Ref} {v : Value} (hr : r ∈ rest)
    (hv : h.value? n r = some v) : g.value? n r = some v := by
  refine Heap.value?_mono (S := fun r => r ∈ rest ∨ 0 < h.store.mentions r) (fun r known o live => ?_)
    (Nat.le_refl n) (Or.inl hr) hv
  exact ⟨c.object_kept b live known, fun a ha => Or.inr (Heap.mentions_pos live ha)⟩

theorem Deals.value?_kept {h g : Heap κ} {given made rest : Multiset Ref} (d : Deals h given g made)
    (b : h.Balanced (given + rest)) {n : Nat} {r : Ref} {v : Value} (hr : r ∈ rest) (hv : h.value? n r = some v) :
    g.value? n r = some v :=
  d.induct (P := fun g => g.value? n r = some v) b hv
    fun _ c b' hv => c.value?_kept b' (Multiset.mem_add.mpr (Or.inr hr)) hv

namespace Run

variable {host : Host κ} {kept : Multiset Ref} {h g : Heap κ} {held held' : Multiset Ref}

theorem kept_le (run : Run host kept h held g held') : kept ≤ held := by
  induction run with
  | start within => exact within
  | perform _ _ _ _ _ ih => exact ih
  | withTracker _ _ ih => exact ih
  | withSink _ _ ih => exact ih

theorem value?_kept (disciplined : host.Disciplined) (run : Run host kept h held g held') (b : h.Balanced held)
    {n : Nat} {r : Ref} {v : Value} (hr : r ∈ kept) (hv : h.value? n r = some v) : g.value? n r = some v :=
  run.induct (P := fun g => g.value? n r = some v) disciplined b hv
    fun d b' within hv => d.value?_kept b' (Multiset.mem_of_le within hr) hv

end Run

/-- **What is held keeps its meaning.** While a reference stays held, its value is the
same, whatever else a run does. And any run, with forged references too, is made of
single steps, and as long as none of them takes an object out of its slot, nothing of
it but its count changes. -/
theorem meaning_kept {host : Host κ} {c : Config} :
    (host.Disciplined → ∀ {h g : Heap κ} {held held' : Multiset Ref} {a : Ref},
      Run host 0 (.ofConfig c) 0 h held → Run host {a} h held g held' →
      ∃ v n, ∀ m, n ≤ m → h.value? m a = some v ∧ g.value? m a = some v) ∧
    (∀ {h g : Heap κ}, Reached host (.ofConfig c) h → Reached host h g → ∃ acts, Trace h acts g) ∧
    ∀ {h h₁ h₂ : Heap κ} {before during : List Act}, Reached host (.ofConfig c) h → Trace h before h₁ →
      Trace h₁ during h₂ → ∀ a o, h₁.object? a = some o → (∀ dead, .bury a dead ∉ during) →
        ∃ n, h₂.object? a = some { o with refcount := n } := by
  refine ⟨fun disciplined h g held held' a run stretch => ?_, fun _ stretch => stretch.evolves,
    fun reached t₁ t₂ a o live stays => ?_⟩
  · have b := run.balanced disciplined (Heap.balanced_ofConfig c)
    have ha : a ∈ held := Multiset.singleton_le.mp stretch.kept_le
    obtain ⟨v, n, hv⟩ := b.exists_value? (b.held_live ha)
    refine ⟨v, n, fun m hm => ⟨hv m hm, ?_⟩⟩
    exact stretch.value?_kept disciplined b (Multiset.mem_singleton_self a) (hv m hm)
  · exact t₂.object_lasts (t₁.wellFormed reached.wellFormed) live stays

/-- The item taken out of the pair is given back, and other objects come and go. -/
def Stock.churn (h : Heap Stock.Name) : Option (Heap Stock.Name × Multiset Ref) :=
  (Stock.host 8).play {⟨4⟩} [.release ⟨3⟩, .short 300, .short 301, .release ⟨5⟩] h {⟨3⟩, ⟨4⟩}

/-- A pair keeps its value while its item is given back and other objects come and go. -/
theorem meaning_kept_paired : ∃ (h g : Heap Stock.Name) (v : Value) (n : Nat),
    Run (Stock.host 8) 0 (.ofConfig Stock.sampleConfig) 0 h {⟨3⟩, ⟨4⟩} ∧
    Run (Stock.host 8) {⟨4⟩} h {⟨3⟩, ⟨4⟩} g {⟨4⟩, ⟨6⟩} ∧
    ∀ m, n ≤ m → h.value? m ⟨4⟩ = some v ∧ g.value? m ⟨4⟩ = some v := by
  have hplay : ((Stock.host 8).play 0 Stock.sample (.ofConfig Stock.sampleConfig) 0).map
      (fun p => (p.2, (Stock.churn p.1).map fun q => (q.2, q.1.violations))) =
        some ({⟨3⟩, ⟨4⟩}, some ({⟨4⟩, ⟨6⟩}, 0)) := by decide +kernel
  obtain ⟨h, run, hchurn⟩ := Run.of_play (fun h => (Stock.churn h).map fun q => (q.2, q.1.violations))
    (Multiset.zero_le _) hplay
  obtain ⟨g, stretch, -⟩ := Run.of_play Heap.violations (by decide) hchurn
  obtain ⟨v, n, same⟩ := meaning_kept.1 (Stock.host_disciplined 8) run stretch
  exact ⟨h, g, v, n, run, stretch, same⟩

end CountedHeap
