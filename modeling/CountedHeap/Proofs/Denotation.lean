/-
# What references denote

A reference denotes a datum if the tree of objects below it is that datum
(`Heap.denotes_iff` says so level by level). What the heap does with references is
described here by what it does to the data they denote, and nothing else about the
objects is used: not where they are, not how many references they have, not whether two
references are one. Reading an operand gives what reading its datum gives. A handler of
the built-in types makes a reference that denotes what its function of data says, or
fails with that function's error, and the operator dispatches as it does on data.

Objects come and go while a handler works. Its operands stay, since they are held until
the result is made, and so do their items (`Heap.Retains`); the result stays while the
operands are given back, since it is held then (`Makes.consuming`).

Key definitions: `Heap.Denotes`, `Heap.Holds`, `Heap.Ready`, `Heap.Supplies`, `Means`, `Makes`.
Key theorems: `Heap.denotes_iff`, `Heap.resolve_denotes`, `Heap.Ready.dispatch_means`,
`Handler.unary_means`, `Handler.binary_means`, `Handler.ternary_means`.
-/
import CountedHeap.Proofs.Data
import CountedHeap.Proofs.Shorts
import CountedHeap.Proofs.Uniform

namespace CountedHeap

variable {κ : Role → Type} {α β : Type} {E : Fault → Prop}

/-- One reading after the other, beside functions of data. -/
theorem Ends.readMatches {α' β' : Type} {R : α → α' → Prop} {R' : β → β' → Prop} {m : ReadM α} {f : α → ReadM β}
    {x : Except RunError α'} {k : α' → Except RunError β'} (hm : Ends E (Matches R · x) m)
    (ok : ∀ a a', R a a' → Ends E (Matches R' · (k a')) (f a)) :
    Ends E (Matches R' · (x >>= k)) (m >>= f : ReadM β) := by
  cases x with
  | ok a' => exact hm.readBind (fun a ha => ok a a' ha) fun _ he => he.elim
  | error e' => exact hm.readBind (fun _ ha => ha.elim) fun _ he => he

namespace Heap

variable {h g h' : Heap κ} {a b r : Ref} {x y : Datum} {held rest : Multiset Ref}

/-- The tree below the reference is that of the datum. -/
def Denotes (h : Heap κ) (a : Ref) (x : Datum) : Prop := ∃ n, h.value? n a = some x.value

/-- The payload holds what the datum is made of. -/
inductive Holds (h : Heap κ) : Payload → Datum → Prop
  | none : Holds h .none .none
  | bool (v : Bool) : Holds h (.bool v) (.bool v)
  | short (v : Int32) : Holds h (.short v) (.short v)
  | tuple {refs : List Ref} {xs : List Datum} (items : List.Forall₂ h.Denotes refs xs) :
      Holds h (.tuple refs) (.tuple xs)

/-- Every live object is there in `g` too, with some count. -/
def Retains (h g : Heap κ) : Prop :=
  ∀ r o, h.object? r = some o → ∃ n, g.object? r = some { o with refcount := n }

namespace Retains

theorem refl (h : Heap κ) : h.Retains h := fun _ o live => ⟨o.refcount, live⟩

theorem trans (first : h.Retains g) (last : g.Retains h') : h.Retains h' := by
  intro r o live
  obtain ⟨n, live'⟩ := first r o live
  obtain ⟨m, live''⟩ := last r _ live'
  exact ⟨m, live''⟩

theorem value? (keeps : h.Retains g) {n m : Nat} {v : Value} (hle : n ≤ m) (hv : h.value? n a = some v) :
    g.value? m a = some v :=
  value?_mono (S := fun _ => True) (fun r _ o live => ⟨keeps r o live, fun _ _ => trivial⟩) hle trivial hv

theorem denotes (keeps : h.Retains g) (hx : h.Denotes a x) : g.Denotes a x := by
  obtain ⟨n, hv⟩ := hx
  exact ⟨n, keeps.value? (Nat.le_refl n) hv⟩

theorem denotesAll (keeps : h.Retains g) {refs : List Ref} {xs : List Datum}
    (hxs : List.Forall₂ h.Denotes refs xs) : List.Forall₂ g.Denotes refs xs :=
  hxs.imp fun _ _ => keeps.denotes

end Retains

/-- References denote data if together they have their values, looked at deep enough. -/
theorem forall₂_denotes_iff {refs : List Ref} {xs : List Datum} :
    List.Forall₂ h.Denotes refs xs ↔ ∃ n, refs.mapM (h.value? n) = some (Datum.values xs) := by
  constructor
  · intro hxs
    induction hxs with
    | nil => exact ⟨0, rfl⟩
    | @cons a x refs xs hx _ ih =>
      obtain ⟨n, hv⟩ := hx
      obtain ⟨m, hvs⟩ := ih
      have head : h.value? (max n m) a = some x.value := (Retains.refl h).value? (Nat.le_max_left n m) hv
      have tail : refs.mapM (h.value? (max n m)) = some (Datum.values xs) :=
        mapM_mono (fun _ _ _ hw => (Retains.refl h).value? (Nat.le_max_right n m) hw) hvs
      exact ⟨max n m, by simp [List.mapM_cons, head, tail, Datum.values]⟩
  · rintro ⟨n, hvs⟩
    induction refs generalizing xs with
    | nil =>
      cases xs with
      | nil => exact .nil
      | cons x xs => simp [Datum.values] at hvs
    | cons a refs ih =>
      simp only [List.mapM_cons, Option.bind_eq_bind, Option.bind_eq_some_iff] at hvs
      obtain ⟨v, hv, vs, hvs, he⟩ := hvs
      cases xs with
      | nil => simp [Datum.values] at he
      | cons x xs =>
        cases he
        exact .cons ⟨n, hv⟩ (ih hvs)

/-- **One level of the tree.** -/
theorem denotes_iff : h.Denotes a x ↔ ∃ o, h.object? a = some o ∧ o.type = x.type ∧ h.Holds o.payload x := by
  constructor
  · rintro ⟨n, hv⟩
    cases n with
    | zero => cases hv
    | succ n =>
      obtain ⟨⟨_, type, _, _, _, payload⟩, live, hv⟩ := Option.bind_eq_some_iff.mp hv
      refine ⟨_, live, ?_⟩
      cases payload with
      | tuple refs =>
        obtain ⟨vs, hvs, hv⟩ := Option.map_eq_some_iff.mp hv
        cases x with
        | tuple xs =>
          cases hv
          exact ⟨rfl, .tuple (forall₂_denotes_iff.mpr ⟨n, hvs⟩)⟩
        | none | bool | short => cases hv
      | none | bool | short | host =>
        cases x <;> cases hv <;> exact ⟨rfl, by constructor⟩
  · rintro ⟨⟨_, type, _, _, _, payload⟩, live, ht, holds⟩
    cases ht
    cases holds with
    | tuple items =>
      obtain ⟨n, hvs⟩ := forall₂_denotes_iff.mp items
      exact ⟨n + 1, Option.bind_eq_some_iff.mpr ⟨_, live, Option.map_eq_some_iff.mpr ⟨_, hvs, rfl⟩⟩⟩
    | none | bool | short => exact ⟨1, Option.bind_eq_some_iff.mpr ⟨_, live, rfl⟩⟩

/-! ### Looking at what is denoted -/

namespace Denotes

/-- A reference denotes one datum. -/
theorem unique (hx : h.Denotes a x) (hy : h.Denotes a y) : x = y := by
  obtain ⟨n, hv⟩ := hx
  obtain ⟨m, hw⟩ := hy
  have deeper : h.value? (max n m) a = some x.value := (Retains.refl h).value? (Nat.le_max_left n m) hv
  have deeper' : h.value? (max n m) a = some y.value := (Retains.refl h).value? (Nat.le_max_right n m) hw
  exact Datum.value_injective (Option.some.inj (deeper.symm.trans deeper'))

/-- What is held goes on to denote what it did. -/
theorem kept {given made : Multiset Ref} (hx : h.Denotes a x) (d : Deals h given g made)
    (bal : h.Balanced (given + rest)) (ha : a ∈ rest) : g.Denotes a x := by
  obtain ⟨n, hv⟩ := hx
  exact ⟨n, d.value?_kept bal ha hv⟩

section Readings

variable (hx : h.Denotes a x)
include hx

theorem live : ∃ o, h.object? a = some o := by
  obtain ⟨o, live, -⟩ := denotes_iff.mp hx
  exact ⟨o, live⟩

theorem get : ∃ o, h.get a = .ok o ∧ o.type = x.type ∧ h.Holds o.payload x := by
  obtain ⟨o, live, ht, holds⟩ := denotes_iff.mp hx
  refine ⟨o, ?_, ht, holds⟩
  unfold Heap.get
  rw [live]

theorem typeOf (wf : h.WellFormed) : h.typeOf a = .ok x.descriptor := by
  obtain ⟨o, hget, ht, -⟩ := hx.get
  have known : h.types.get? o.type = some x.descriptor := by
    rw [ht, wf.builtin x.type x.type_isBuiltin]
    exact x.builtin_get?
  simp only [Heap.typeOf, hget, Registry.get, known, bind, Except.bind]

theorem typeName (wf : h.WellFormed) : h.typeName a = .ok x.typeName := by
  unfold Heap.typeName
  rw [hx.typeOf wf, ← x.descriptor_name (κ := κ)]
  rfl

theorem bool? : h.boolValue? a = .ok x.bool? := by
  obtain ⟨⟨_, _, _, _, _, payload⟩, hget, -, holds⟩ := hx.get
  unfold boolValue?
  rw [hget]
  cases holds <;> rfl

theorem short? : h.shortValue? a = .ok x.short? := by
  obtain ⟨⟨_, _, _, _, _, payload⟩, hget, -, holds⟩ := hx.get
  unfold shortValue?
  rw [hget]
  cases holds <;> rfl

theorem items? : ∃ refs?, h.tupleItems? a = .ok refs? ∧ Option.Rel (List.Forall₂ h.Denotes) refs? x.items? := by
  obtain ⟨⟨_, _, _, _, _, payload⟩, hget, -, holds⟩ := hx.get
  unfold Heap.tupleItems?
  rw [hget]
  cases holds with
  | tuple items => exact ⟨_, rfl, .some items⟩
  | none | bool | short => exact ⟨_, rfl, .none⟩

theorem shortValue (wf : h.WellFormed) (op : String) : h.shortValue op a = .ok (x.asShort op) := by
  obtain ⟨⟨_, _, _, _, _, payload⟩, hget, -, holds⟩ := hx.get
  have hname := hx.typeName wf
  unfold Heap.shortValue
  rw [hget, hname]
  cases holds <;> rfl

theorem shortValue_ends (wf : h.WellFormed) (op : String) :
    Ends E (Matches Eq · (x.asShort op)) (h.shortValue op a) := by
  rw [hx.shortValue wf]
  cases x.asShort op <;> exact rfl

/-- The references that a tuple holds denote its items. -/
theorem tupleItems_ends (wf : h.WellFormed) (op : String) :
    Ends E (Matches (List.Forall₂ h.Denotes) · (x.asTuple op)) (h.tupleItems op a) := by
  obtain ⟨⟨_, _, _, _, _, payload⟩, hget, -, holds⟩ := hx.get
  have hname := hx.typeName wf
  unfold Heap.tupleItems
  rw [hget, hname]
  cases holds with
  | tuple items => exact items
  | none | bool | short => exact rfl

theorem tupleItem_ends (wf : h.WellFormed) (op : String) (index : Int) :
    Ends E (Matches h.Denotes · (x.item op index)) (h.tupleItem op a index) := by
  refine (hx.tupleItems_ends wf op).readMatches fun refs xs items => ?_
  dsimp only
  rw [items.length_eq]
  generalize (if index < 0 then index + (xs.length : Int) else index) = position
  by_cases hneg : position < 0
  · rw [if_pos hneg, if_pos hneg]
    exact rfl
  · rw [if_neg hneg, if_neg hneg]
    by_cases hlt : position.toNat < xs.length
    · have hlt' : position.toNat < refs.length := items.length_eq ▸ hlt
      rw [List.getElem?_eq_getElem hlt, List.getElem?_eq_getElem hlt']
      exact items.get hlt' hlt
    · rw [List.getElem?_eq_none (by omega), List.getElem?_eq_none (by rw [items.length_eq]; omega)]
      exact rfl

end Readings

end Denotes

/-- **The handler of an operator is that of the first datum whose type has one.** -/
theorem resolve_denotes {ρ : Role} {find : Descriptor κ → Option (Handler κ ρ)} {find' : Datum → Option (Builtin ρ)}
    (same : ∀ x : Datum, find x.descriptor = (find' x).map .builtin) (wf : h.WellFormed) (op : String)
    {operands : List Ref} {xs : List Datum} (hxs : List.Forall₂ h.Denotes operands xs) :
    Ends E (Matches (fun p f => p.1 = .builtin f) · (Datum.offered op find' xs)) (h.resolve op find [] operands) := by
  -- the types passed over come before those of the operands that are left
  have later : ∀ seen, Ends E (Matches (fun p f => p.1 = .builtin f) ·
      ((xs.findSome? find').elim (.error (.unsupported op (seen ++ xs.map Datum.typeName))) .ok))
      (h.resolve op find seen operands) := by
    induction hxs with
    | nil =>
      intro seen
      rw [List.map_nil, List.append_nil]
      exact rfl
    | @cons a x operands xs hx _ ih =>
      intro seen
      have ht := hx.typeOf wf
      cases found : find' x with
      | some f =>
        have hf : find x.descriptor = some (.builtin f) := by rw [same, found]; rfl
        rw [resolve_found ht hf, List.findSome?_cons, found]
        exact rfl
      | none =>
        have hf : find x.descriptor = Option.none := by rw [same, found]; rfl
        rw [resolve_passed ht hf, List.findSome?_cons, found, List.map_cons, ← x.descriptor_name (κ := κ),
          List.append_cons]
        exact ih _
  exact later []

/-! ### Where operators work -/

/-- What operators on data rely on: books that balance, room, and no more than one `None`. -/
structure Ready (h : Heap κ) (held : Multiset Ref) : Prop where
  balanced : h.Balanced held
  roomy : h.ledger.tracker.Roomy
  lone : ∀ a b, h.Denotes a .none → h.Denotes b .none → a = b

/-- The operands are held, each for itself, and denote these data. -/
structure Supplies (h : Heap κ) (held : Multiset Ref) (operands : List Ref) (xs : List Datum) : Prop where
  within : (operands : Multiset Ref) ≤ held
  denote : List.Forall₂ h.Denotes operands xs

theorem Ready.wellFormed (ready : h.Ready held) : h.WellFormed := ready.balanced.wellFormed

theorem retains_emit (h : Heap κ) (event : Event) : h.Retains (h.emit event) := fun _ o live => ⟨o.refcount, live⟩

theorem Ready.emit (ready : h.Ready held) (event : Event) : (h.emit event).Ready held where
  balanced := ready.balanced.emit event
  roomy := ready.roomy
  lone a b ha hb := by
    have back : (h.emit event).Retains h := fun _ o live => ⟨o.refcount, live⟩
    exact ready.lone a b (back.denotes ha) (back.denotes hb)

theorem Supplies.emit {operands : List Ref} {xs : List Datum} (supplied : h.Supplies held operands xs) (event : Event) :
    (h.emit event).Supplies held operands xs :=
  ⟨supplied.within, (retains_emit h event).denotesAll supplied.denote⟩

theorem Supplies.head {operands : List Ref} {xs : List Datum} (supplied : h.Supplies held (a :: operands) (x :: xs)) :
    h.Denotes a x :=
  (List.forall₂_cons.mp supplied.denote).1

theorem Supplies.pair {operands : List Ref} {xs : List Datum}
    (supplied : h.Supplies held (a :: b :: operands) (x :: y :: xs)) : h.Denotes a x ∧ h.Denotes b y := by
  obtain ⟨hx, rest⟩ := List.forall₂_cons.mp supplied.denote
  exact ⟨hx, (List.forall₂_cons.mp rest).1⟩

end Heap

/-! ### Making what is expected -/

/-- The answer is the expected error, or a reference that denotes the expected datum. -/
def Means (expected : Except RunError Datum) (p : Except RunError Ref × Heap κ) : Prop :=
  Matches p.2.Denotes p.1 expected

/-- The same, and what was held is still held, with the new reference. -/
def Makes (h : Heap κ) (expected : Except RunError Datum) (p : Except RunError Ref × Heap κ) : Prop :=
  Means expected p ∧ Deals h 0 p.2 (outcome 0 ({·}) p.1)

namespace Makes

variable {h : Heap κ} {expected : Except RunError Datum}

theorem failed (h : Heap κ) (e : RunError) : Ends E (Makes h (.error e)) ((throw e : RunM κ Ref) h) :=
  show Makes h (.error e) (.error e, h) from ⟨rfl, .refl⟩

/-- Looking at an operand first, and at its datum. -/
theorem read {R : α → β → Prop} {f : Heap κ → ReadM α} {x : Except RunError β} {body : α → RunM κ Ref}
    {k : β → Except RunError Datum} (hf : Ends E (Matches R · x) (f h))
    (ok : ∀ a b, R a b → Ends E (Makes h (k b)) (body a h)) :
    Ends E (Makes h (x >>= k)) ((Heap.reading f >>= body) h) := by
  have looked : Ends E (fun p => p.2 = h ∧ Matches R p.1 x) (Heap.reading f h) :=
    hf.bind fun answer ha => ⟨rfl, ha⟩
  refine looked.runBind (fun a g hp => ?_) fun e g hp => ?_
  · obtain ⟨rfl, ha⟩ := hp
    cases x with
    | ok b => exact ok a b ha
    | error e => exact ha.elim
  · obtain ⟨rfl, ha⟩ := hp
    cases x with
    | ok b => exact ha.elim
    | error e' =>
      cases ha
      exact ⟨rfl, .refl⟩

/-- Looking at an object that is known to be there. -/
theorem look {a : Ref} {o : Object} {body : Object → RunM κ Ref} (hget : h.get a = .ok o)
    (hb : Ends E (Makes h expected) (body o h)) :
    Ends E (Makes h expected) ((Heap.reading (fun h => ExceptT.lift (h.get a)) >>= body) h) := by
  have looked : Ends E (· = (.ok o, h)) (Heap.reading (fun h => ExceptT.lift (h.get a)) h) := by
    unfold Heap.reading
    dsimp only
    rw [hget]
    exact rfl
  refine looked.runBind (fun o' g hp => ?_) fun e g hp => nomatch hp
  cases hp
  exact hb

/-- Giving the operands back does not touch the result, which is held. -/
theorem consuming {refs : List Ref} {held : Multiset Ref} {body : RunM κ Ref} (bal : h.Balanced held)
    (within : (refs : Multiset Ref) ≤ held) (hb : Ends E (Makes h expected) (body h)) :
    Ends E (Means expected) (Heap.consuming refs body h) := by
  obtain ⟨rest, rfl⟩ := Multiset.le_iff_exists_add.mp within
  refine Ends.bind hb fun p made => ?_
  obtain ⟨means, d⟩ := made
  show Matches (p.2.releaseAll refs).Denotes p.1 expected
  have bal' : p.2.Balanced (outcome 0 ({·}) p.1 + (refs + rest)) := d.balanced (by rwa [zero_add])
  rcases means.cases with ⟨r, x, hr, rfl, hx⟩ | ⟨e, he, rfl⟩
  · rw [hr] at bal' ⊢
    rw [show outcome 0 ({·}) (Except.ok r : Except RunError Ref) = {r} from rfl, add_left_comm] at bal'
    exact hx.kept (Heap.releaseAll_deals bal') bal' (by simp)
  · rw [he]
    exact rfl

end Makes

namespace Heap

variable {h g : Heap κ} {a b c r : Ref} {x y z : Datum} {held rest : Multiset Ref}

/-- An object that is made where there is room leaves all others as they are. -/
theorem WellFormed.construct_roomy (wf : h.WellFormed) (roomy : h.ledger.tracker.Roomy) {type : TypeId}
    {d : Descriptor κ} (known : h.types.get? type = some d) (payload : Payload) :
    ∃ r g, construct type payload h = .ok (.ok r, g) ∧ g.object? r = some (.fresh type d payload) ∧ h.Retains g := by
  obtain ⟨r, g, taken, -⟩ := wf.takeBlock_roomy roomy d.name (d.blockSize payload.children.length)
  obtain ⟨dead, w, -⟩ := Change.make_writes wf (.fresh type d payload) taken
  refine ⟨r, _, construct_of_taken known taken, w.object?_self, fun a o live => ⟨o.refcount, ?_⟩⟩
  have ha : a ≠ r := by
    rintro rfl
    rw [dead] at live
    cases live
  exact (w.object?_other ha).trans live

theorem retains_acquire {o : Object} (live : h.object? r = some o) :
    h.Retains (h.setSlot r (.live { o with refcount := o.refcount + 1 })) := by
  intro a o' live'
  have w : h.store.Writes (h.setSlot r (.live { o with refcount := o.refcount + 1 })).store r _ :=
    Store.writes_put (slot_of_object? live) _
  by_cases ha : a = r
  · subst ha
    rw [live] at live'
    cases live'
    exact ⟨_, w.object?_self⟩
  · exact ⟨o'.refcount, (w.object?_other ha).trans live'⟩

/-- Sharing objects changes their counts only. -/
theorem share_retains : ∀ {items : List Ref} {h : Heap κ}, (∀ r ∈ items, ∃ o, h.object? r = some o) →
    ∃ g, Tuple.share items h = .ok ((), g) ∧ h.Retains g ∧ h.Framed g
  | [], h, _ => ⟨h, rfl, .refl h, .refl h⟩
  | r :: items, h, live => by
    obtain ⟨o, hr⟩ := live r List.mem_cons_self
    have first := retains_acquire hr
    have live' : ∀ a ∈ items,
        ∃ o', (h.setSlot r (.live { o with refcount := o.refcount + 1 })).object? a = some o' := by
      intro a ha
      obtain ⟨o', ha⟩ := live a (List.mem_cons_of_mem r ha)
      obtain ⟨n, ha⟩ := first a o' ha
      exact ⟨_, ha⟩
    obtain ⟨g, done, last, framed⟩ := share_retains live'
    refine ⟨g, ?_, first.trans last, ((Framed.refl h).setSlot r _).trans framed⟩
    rw [← done]
    show (newRef r h >>= fun p => Tuple.share items p.2 : Except Fault (Unit × Heap κ)) = _
    unfold newRef acquire
    rw [hr]
    rfl

theorem lift_bind {α : Type} {m : HeapM κ α} {x : α} (done : m h = .ok (x, g)) (body : α → RunM κ Ref) :
    (ExceptT.lift m >>= body : RunM κ Ref) h = body x g := by
  show ((m h >>= fun p => .ok (.ok p.1, p.2)) >>= fun p => ExceptT.bindCont body p.1 p.2 : Except Fault _) = _
  rw [done]
  rfl

/-- A live tuple of these items. -/
def IsTuple (h : Heap κ) (a : Ref) (items : List Ref) : Prop :=
  ∃ o, h.object? a = some o ∧ o.payload = .tuple items

theorem IsTuple.denotes {items : List Ref} {xs : List Datum} (tuple : h.IsTuple r items) (wf : h.WellFormed)
    (hxs : List.Forall₂ h.Denotes items xs) : h.Denotes r (.tuple xs) := by
  obtain ⟨o, live, payload⟩ := tuple
  have fits := (wf.objects r o live).fits
  refine denotes_iff.mpr ⟨o, live, ?_, ?_⟩ <;> rw [payload] at *
  · exact fits
  · exact .tuple hxs

/-- A tuple is made of references that are held, where there is room. -/
theorem Balanced.tuple_assembles {items : List Ref} (bal : h.Balanced (items + rest)) (roomy : h.ledger.tracker.Roomy) :
    ∃ r g, tuple items h = .ok (.ok r, g) ∧ g.IsTuple r items ∧ h.Retains g ∧ Deals h items g {r} := by
  obtain ⟨d, known⟩ := bal.wellFormed.builtin_known .tuple rfl
  obtain ⟨r, g, done, live, retains⟩ := bal.wellFormed.construct_roomy roomy known (.tuple items)
  exact ⟨r, g, done, ⟨_, live, rfl⟩, retains, (tuple_trades bal).of_ok done⟩

/-- A tuple is made of references to items that others own. -/
theorem Balanced.shared_assembles {items : List Ref} (bal : h.Balanced held) (roomy : h.ledger.tracker.Roomy)
    (live : ∀ z ∈ items, ∃ o, h.object? z = some o) :
    ∃ r g, (do ExceptT.lift (Tuple.share items); tuple items : RunM κ Ref) h = .ok (.ok r, g) ∧ g.IsTuple r items ∧
      h.Retains g ∧ Deals h 0 g {r} := by
  obtain ⟨g, shared, retains, framed⟩ := share_retains live
  have d : Deals h 0 g items := (Tuple.share_trades live).of_ok shared
  have bal' : g.Balanced (items + held) := d.balanced (by rwa [zero_add])
  obtain ⟨r, g', done, made, retains', d'⟩ := bal'.tuple_assembles (framed.roomy roomy)
  refine ⟨r, g', ?_, made, retains.trans retains', d.trans d'⟩
  rw [lift_bind shared]
  exact done

theorem newRef_makes (hx : h.Denotes a x) : Ends E (Makes h (.ok x)) ((ExceptT.lift (newRef a) : RunM κ Ref) h) := by
  obtain ⟨o, live⟩ := hx.live
  refine Ends.lift ?_
  unfold newRef acquire
  rw [live]
  exact ⟨(retains_acquire live).denotes hx, .acquire live⟩

theorem IsShort.denotes {v : Int32} (short : h.IsShort r v) (wf : h.WellFormed) : h.Denotes r (.short v) := by
  obtain ⟨o, live, payload⟩ := short
  have fits := (wf.objects r o live).fits
  refine denotes_iff.mpr ⟨o, live, ?_, ?_⟩ <;> rw [payload] at *
  · exact fits
  · exact .short v

theorem short_makes (ready : h.Ready held) (v : Int32) : Ends E (Makes h (.ok (.short v))) (short v h) := by
  obtain ⟨r, g, done, -, short⟩ := ready.wellFormed.short_roomy ready.roomy v
  have d : Deals h 0 g {r} := (short_trades ready.balanced v).of_ok done
  have bal : g.Balanced ({r} + held) := d.balanced (by rw [zero_add]; exact ready.balanced)
  rw [done]
  exact ⟨short.denotes bal.wellFormed, d⟩

theorem item_makes (wf : h.WellFormed) (hx : h.Denotes a x) (op : String) (index : Int) :
    Ends E (Makes h (x.item op index)) (item op a index h) := by
  have made : Ends E (Makes h (x.item op index >>= pure)) (item op a index h) :=
    Makes.read (hx.tupleItem_ends wf op index) fun r y hy => newRef_makes hy
  rwa [bind_pure] at made

/-- A tuple of items that other tuples own. -/
theorem shared_makes (ready : h.Ready held) {refs : List Ref} {xs : List Datum}
    (hxs : List.Forall₂ h.Denotes refs xs) :
    Ends E (Makes h (.ok (.tuple xs))) ((do ExceptT.lift (Tuple.share refs); tuple refs : RunM κ Ref) h) := by
  have live : ∀ r ∈ refs, ∃ o, h.object? r = some o :=
    ((List.forall₂_and_left _ _).mp (hxs.imp fun _ _ hz => ⟨hz.live, hz⟩)).1
  obtain ⟨r, g, done, made, retains, d⟩ := ready.balanced.shared_assembles ready.roomy live
  have bal : g.Balanced ({r} + held) := d.balanced (by rw [zero_add]; exact ready.balanced)
  rw [done]
  exact ⟨made.denotes bal.wellFormed (retains.denotesAll hxs), d⟩

/-! ### Handlers -/

theorem checked_makes (ready : h.Ready held) (op : String) (v : Option Int32) :
    Ends E (Makes h (Datum.checked op v)) ((Short.checked op v >>= short : RunM κ Ref) h) := by
  cases v with
  | some v => exact short_makes ready v
  | none => exact Makes.failed h (.overflow op)

theorem shortUnary_means (ready : h.Ready held) (supplied : h.Supplies held [a] [x]) (op : UnaryOp)
    (f : Int32 → Option Int32) : Ends E (Means (x.shortUnary op f)) (Short.unary op f a h) := by
  refine Makes.consuming ready.balanced supplied.within
    (Makes.read (supplied.head.shortValue_ends ready.wellFormed _) ?_)
  rintro v _ rfl
  exact checked_makes ready _ _

theorem shortArithmetic_means (ready : h.Ready held) (supplied : h.Supplies held [a, b] [x, y]) (op : BinaryOp)
    (f : Int32 → Int32 → Option Int32) : Ends E (Means (x.shortArithmetic op f y)) (Short.arithmetic op f a b h) := by
  obtain ⟨hx, hy⟩ := supplied.pair
  refine Makes.consuming ready.balanced supplied.within (Makes.read (hx.shortValue_ends ready.wellFormed _) ?_)
  rintro v _ rfl
  refine Makes.read (hy.shortValue_ends ready.wellFormed _) ?_
  rintro w _ rfl
  exact checked_makes ready _ _

theorem shortDivision_means (ready : h.Ready held) (supplied : h.Supplies held [a, b] [x, y]) (op : BinaryOp)
    (f : Int32 → Int32 → Option Int32) : Ends E (Means (x.shortDivision op f y)) (Short.division op f a b h) := by
  obtain ⟨hx, hy⟩ := supplied.pair
  refine Makes.consuming ready.balanced supplied.within (Makes.read (hx.shortValue_ends ready.wellFormed _) ?_)
  rintro v _ rfl
  refine Makes.read (hy.shortValue_ends ready.wellFormed _) ?_
  rintro w _ rfl
  by_cases hw : w = 0
  · rw [if_pos hw, if_pos hw]
    exact Makes.failed h _
  · rw [if_neg hw, if_neg hw]
    exact checked_makes ready _ _

theorem shortPower_means (ready : h.Ready held) (supplied : h.Supplies held [a, b, c] [x, y, z]) :
    Ends E (Means (x.shortPower y z)) (Short.power a b c h) := by
  obtain ⟨hx, hy⟩ := supplied.pair
  have hz : h.Denotes c z := (List.forall₂_cons.mp (List.forall₂_cons.mp (List.forall₂_cons.mp supplied.denote).2).2).1
  -- the modulus is looked at by its type first
  obtain ⟨o, hget, ht, -⟩ := hz.get
  have hnone : o.type = .none ↔ z = .none := by rw [ht, z.type_eq_none]
  refine Makes.consuming ready.balanced supplied.within (Makes.read (hx.shortValue_ends ready.wellFormed _) ?_)
  rintro v _ rfl
  refine Makes.read (hy.shortValue_ends ready.wellFormed _) ?_
  rintro e _ rfl
  by_cases he : e < 0
  · rw [if_pos he, if_pos he]
    exact Makes.failed h _
  · rw [if_neg he, if_neg he]
    refine Makes.look hget ?_
    by_cases hz' : z = .none
    · rw [if_pos (hnone.mpr hz'), if_pos hz']
      exact checked_makes ready _ _
    · rw [if_neg (mt hnone.mp hz'), if_neg hz']
      refine Makes.read (hz.shortValue_ends ready.wellFormed _) ?_
      rintro m _ rfl
      by_cases hm : m = 0
      · rw [if_pos hm, if_pos hm]
        exact Makes.failed h _
      · rw [if_neg hm, if_neg hm]
        exact short_makes ready _

theorem tupleConcat_means (ready : h.Ready held) (supplied : h.Supplies held [a, b] [x, y]) :
    Ends E (Means (x.tupleConcat y)) (Tuple.concat a b h) := by
  obtain ⟨hx, hy⟩ := supplied.pair
  refine Makes.consuming ready.balanced supplied.within
    (Makes.read (hx.tupleItems_ends ready.wellFormed _) fun refs xs hxs => ?_)
  refine Makes.read (hy.tupleItems_ends ready.wellFormed _) fun refs' ys hys => ?_
  exact shared_makes ready (List.rel_append hxs hys)

theorem tupleSubscript_means (ready : h.Ready held) (supplied : h.Supplies held [a, b] [x, y]) :
    Ends E (Means (x.tupleSubscript y)) (Tuple.subscript a b h) := by
  obtain ⟨hx, hy⟩ := supplied.pair
  refine Makes.consuming ready.balanced supplied.within (Makes.read (hy.shortValue_ends ready.wellFormed _) ?_)
  rintro v _ rfl
  exact item_makes ready.wellFormed hx _ _

end Heap

namespace Handler

variable {h : Heap κ} {a b c : Ref} {x y z : Datum} {held : Multiset Ref} {host : Host κ} {inner : Perform κ}

theorem unary_means (ready : h.Ready held) (supplied : h.Supplies held [a] [x]) (f : Builtin .unary) :
    Ends E (Means (f.unary x)) (Handler.unary host inner (.builtin f) a h) := by
  cases f <;> exact Heap.shortUnary_means ready supplied _ _

theorem binary_means (ready : h.Ready held) (supplied : h.Supplies held [a, b] [x, y]) (f : Builtin .binary) :
    Ends E (Means (f.binary x y)) (Handler.binary host inner (.builtin f) a b h) := by
  cases f with
  | shortAdd | shortSubtract | shortMultiply => exact Heap.shortArithmetic_means ready supplied _ _
  | shortRemainder | shortFloorDivide => exact Heap.shortDivision_means ready supplied _ _
  | tupleConcat => exact Heap.tupleConcat_means ready supplied
  | tupleSubscript => exact Heap.tupleSubscript_means ready supplied

theorem ternary_means (ready : h.Ready held) (supplied : h.Supplies held [a, b, c] [x, y, z]) (f : Builtin .ternary) :
    Ends E (Means (f.ternary x y z)) (Handler.ternary host inner (.builtin f) a b c h) := by
  cases f
  exact Heap.shortPower_means ready supplied

end Handler

/-- **An operator on references comes to the operator on data**, if its handlers do. -/
theorem Heap.Ready.dispatch_means {h : Heap κ} {held : Multiset Ref} {ρ : Role}
    {find : Descriptor κ → Option (Handler κ ρ)} {find' : Datum → Option (Builtin ρ)} {operands : List Ref}
    {xs : List Datum} {call : Handler κ ρ → RunM κ Ref} {k : Builtin ρ → Except RunError Datum}
    (ready : h.Ready held) (supplied : h.Supplies held operands xs)
    (same : ∀ x : Datum, find x.descriptor = (find' x).map .builtin) (op : String)
    (hcall : ∀ f (g : Heap κ), g.Ready held → g.Supplies held operands xs →
      Ends E (Means (k f)) (call (.builtin f) g)) :
    Ends E (Means (Datum.offered op find' xs >>= k)) (dispatch op find operands call h) := by
  refine Ends.bind (resolve_denotes same ready.wellFormed op supplied.denote) fun answer ha => ?_
  rcases ha.cases with ⟨⟨handler, event⟩, f, rfl, hf, rfl⟩ | ⟨e, rfl, he⟩
  · rw [hf]
    exact hcall f (h.emit event) (ready.emit event) (supplied.emit event)
  · rw [he]
    exact rfl

end CountedHeap
