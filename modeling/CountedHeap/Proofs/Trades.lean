/-
# Operations that keep the books

`Trades h given made x` says of a computation `x` on the heap `h`: it stops only
at a limit of the machine, and if it ends with `a` it has dealt in references so
that who held `given` now holds `made a`. So no reference is lost or made up on
any path, those of the errors included, nothing is read that is dead, and no
release is skipped.

Here it is shown for what a heap does itself: giving back, making objects,
reading, and the built-in handlers. Each needs balanced books at its start and
the references it looks at among those held; the rest that is held comes along
by `Deals.frame`.

Key definitions: `Fault.Limit`, `Trades`.
Key theorems: `Heap.cascade_deals`, `Heap.construct_trades`.
-/
import CountedHeap.Builtin.Short
import CountedHeap.Builtin.Tuple
import CountedHeap.Proofs.Books
import CountedHeap.Proofs.Discipline
import CountedHeap.Proofs.Ends

namespace CountedHeap

variable {κ : Role → Type} {α β : Type}

/-- A limit of the machine: no stack is left, or no index for another type. -/
def Fault.Limit : Fault → Prop
  | .stackOverflow | .registryFull => True
  | _ => False

/-- `x` stops at a limit, or it ends with `a` and has turned `given` into `made a`. -/
def Trades (h : Heap κ) (given : Multiset Ref) (made : α → Multiset Ref) (x : Except Fault (α × Heap κ)) : Prop :=
  Ends Fault.Limit (fun p => Deals h given p.2 (made p.1)) x

namespace Trades

variable {h g : Heap κ} {given rest : Multiset Ref}

theorem frame {made : α → Multiset Ref} {x : Except Fault (α × Heap κ)} (t : Trades h given made x)
    (rest : Multiset Ref) : Trades h (given + rest) (fun a => made a + rest) x :=
  t.mono fun _ d => d.frame rest

theorem congr {made made' : α → Multiset Ref} {x : Except Fault (α × Heap κ)} (t : Trades h given made x)
    (he : ∀ a, made a = made' a) : Trades h given made' x := by
  rw [← funext he]
  exact t

/-- Dealing first. -/
theorem after {kept : Multiset Ref} {made : α → Multiset Ref} {x : Except Fault (α × Heap κ)}
    (d : Deals h given g kept) (t : Trades g kept made x) : Trades h given made x :=
  t.mono fun _ d' => d.trans d'

/-- Operations that may fail, one after the other, each on balanced books. -/
theorem runBind {mid : Except RunError α → Multiset Ref} {made : Except RunError β → Multiset Ref}
    {m : RunM κ α} {f : α → RunM κ β} (b : h.Balanced (given + rest)) (hm : Trades h given mid (m h))
    (ok : ∀ a g, g.Balanced (mid (.ok a) + rest) → Trades g (mid (.ok a)) made (f a g))
    (error : ∀ e, mid (.error e) = made (.error e)) : Trades h given made ((m >>= f) h) := by
  refine Ends.runBind hm (fun a g d => after d (ok a g (d.balanced b))) fun e g d => ?_
  show Deals h given g (made (.error e))
  rw [← error e]
  exact d

/-- Reading first, which leaves the heap as it is. -/
theorem read {P : Except RunError α → Prop} {made : Except RunError β → Multiset Ref} {f : Heap κ → ReadM α}
    {k : α → RunM κ β} (hf : Ends Fault.Limit P (f h)) (ok : ∀ a, P (.ok a) → Trades h given made (k a h))
    (error : ∀ e, made (.error e) = given) : Trades h given made ((Heap.reading f >>= k) h) := by
  have hr : Ends Fault.Limit (fun p => p.2 = h ∧ P p.1) (Heap.reading f h) :=
    hf.bind fun result hp => ⟨rfl, hp⟩
  refine Ends.runBind hr (fun a g hp => ?_) fun e g hp => ?_
  · obtain ⟨rfl, hp⟩ := hp
    exact ok a hp
  · obtain ⟨rfl, -⟩ := hp
    show Deals g given g (made (.error e))
    rw [error e]
    exact .refl

end Trades

namespace Heap

variable {h : Heap κ} {held rest : Multiset Ref}

/-! ### Giving references back -/

/-- A reference that is held can be given back. -/
theorem Balanced.verdict_fits (b : h.Balanced held) {r : Ref} (hr : r ∈ held) (cause : Inconsistency) :
    h.verdict r ≠ .refused cause := by
  intro hv
  obtain ⟨o, live⟩ := b.held_live hr
  have he := b.exact r
  have hpos := Multiset.count_pos.mpr hr
  rw [live] at he
  unfold verdict at hv
  rw [slot_of_object? live] at hv
  simp only at hv
  split at hv
  · -- the last reference to an immortal object is the heap's own
    rename_i hi
    simp only [Object.count?, Object.pin?, hi.1, if_true] at he
    omega
  · split at hv <;> cases hv

/-- **The cascade gives back all that is pending and meets nothing that does not fit.** -/
theorem cascade_deals (h : Heap κ) (first : Option Inconsistency) (pending : List Ref)
    (b : h.Balanced (pending + rest)) :
    Deals h pending (h.cascade first pending).1 0 ∧ (h.cascade first pending).2 = first := by
  fun_induction cascade h first pending with
  | case1 h first => exact ⟨.refl, rfl⟩
  | case2 h first r pending cause hv ih =>
    have hr : r ∈ ((r :: pending : List Ref) : Multiset Ref) + rest := by simp
    exact absurd hv (b.verdict_fits hr cause)
  | case3 h first r pending o hv ih =>
    rw [← Multiset.cons_coe, ← Multiset.singleton_add] at b ⊢
    have first := Deals.drop hv
    rw [add_assoc] at b
    have b' := first.balanced b
    rw [zero_add] at b'
    obtain ⟨d, he⟩ := ih b'
    exact ⟨first.andThen (by rwa [zero_add]), he⟩
  | case4 h first r pending o hv ih =>
    rw [← Multiset.cons_coe, ← Multiset.singleton_add] at b ⊢
    have first := Deals.bury hv
    have hp : ((o.payload.children.reverse ++ pending : List Ref) : Multiset Ref) =
        o.payload.children + (pending : Multiset Ref) := by
      rw [← Multiset.coe_add, Multiset.coe_reverse]
    rw [add_assoc] at b
    have b' := first.balanced b
    rw [← add_assoc, ← hp] at b'
    obtain ⟨d, he⟩ := ih b'
    exact ⟨first.andThen (hp ▸ d), he⟩

theorem tryRelease_deals {r : Ref} (b : h.Balanced ({r} + rest)) :
    Deals h {r} (h.tryRelease r).1 0 ∧ (h.tryRelease r).2 = .none :=
  cascade_deals h .none [r] b

theorem release_deals {r : Ref} (b : h.Balanced ({r} + rest)) : Deals h {r} (h.release r) 0 := by
  obtain ⟨d, he⟩ := tryRelease_deals b
  unfold release
  split
  · rename_i g hg
    rw [hg] at d
    exact d
  · rename_i g cause hg
    rw [hg] at he
    cases he

theorem releaseAll_deals : ∀ {refs : List Ref} {h : Heap κ}, h.Balanced (refs + rest) →
    Deals h refs (h.releaseAll refs) 0
  | [], _, _ => .refl
  | r :: refs, h, b => by
    rw [← Multiset.cons_coe, ← Multiset.singleton_add] at b ⊢
    rw [add_assoc] at b
    have first := release_deals b
    have b' := first.balanced b
    rw [zero_add] at b'
    exact first.andThen (by rw [zero_add]; exact releaseAll_deals b')

/-! ### Making objects -/

theorem WellFormed.takeBlock_ends {E : Fault → Prop} (wf : h.WellFormed) (name : String) (size : Nat) :
    Ends E (fun p => h.takeBlock name size = .ok p) (h.takeBlock name size) := by
  refine Ends.self fun f hf => ?_
  obtain ⟨found, hp⟩ := wf.takeParked_ok size
  unfold takeBlock at hf
  rw [hp] at hf
  cases found with
  | some p => cases hf
  | none => cases hl : h.ledger.allocate size <;> simp [bind, Except.bind, pure, Except.pure, hl] at hf

/-- A new object takes over what it owns, and if its block is refused that is given back. -/
theorem construct_trades {type : TypeId} {payload : Payload} {d : Descriptor κ}
    (b : h.Balanced (payload.children + rest)) (known : h.types.get? type = some d) (fits : payload.Fits type) :
    Trades h payload.children (outcome 0 ({·})) (construct type payload h) := by
  have hget : h.types.get type = .ok d := by
    unfold Registry.get
    rw [known]
  unfold construct
  rw [hget]
  refine Ends.bind (P := fun d' => d' = d) rfl fun d' hd => ?_
  subst hd
  refine Ends.bind (b.wellFormed.takeBlock_ends _ _) fun p hp => ?_
  obtain ⟨result, g⟩ := p
  cases result with
  | ok r => exact .single (Change.make known fits hp) fun _ => Act.noConfusion
  | error e =>
    rw [takeBlock_refused hp]
    exact releaseAll_deals b

/-- A new object that owns nothing. -/
theorem construct_leaf_trades {type : TypeId} {payload : Payload} {d : Descriptor κ} (b : h.Balanced held)
    (leaf : payload.children = []) (known : h.types.get? type = some d) (fits : payload.Fits type) :
    Trades h 0 (outcome 0 ({·})) (construct type payload h) := by
  have b' : h.Balanced (payload.children + held) := by rwa [leaf, Multiset.coe_nil, zero_add]
  have t := construct_trades b' known fits
  rwa [leaf] at t

theorem newRef_trades {r : Ref} {o : Object} (live : h.object? r = some o) : Trades h 0 ({·}) (newRef r h) := by
  unfold newRef acquire
  rw [live]
  exact .acquire live

theorem hit_trades {r : Ref} (b : h.Balanced held) (hr : r.index < h.interned.count) :
    Trades h 0 ({·}) (hit r h) := by
  obtain ⟨o, live, -⟩ := b.interned_live hr
  exact .after (.hit hr) (newRef_trades live)

theorem WellFormed.builtin_known (wf : h.WellFormed) (type : TypeId) (ht : type.isBuiltin = true) :
    ∃ d, h.types.get? type = some d := by
  rw [wf.builtin type ht]
  exact Registry.builtin_get? ht

theorem short_trades (b : h.Balanced held) (v : Int32) : Trades h 0 (outcome 0 ({·})) (short v h) := by
  unfold short
  cases hi : h.interned.short? v with
  | some r => exact Ends.lift (hit_trades b (Interned.short?_lt hi))
  | none =>
    obtain ⟨d, known⟩ := b.wellFormed.builtin_known .short rfl
    exact construct_leaf_trades b rfl known rfl

theorem tuple_trades {items : List Ref} (b : h.Balanced (items + rest)) :
    Trades h items (outcome 0 ({·})) (tuple items h) := by
  obtain ⟨d, known⟩ := b.wellFormed.builtin_known .tuple rfl
  have fits : (Payload.tuple items).Fits .tuple := rfl
  exact construct_trades b known fits

theorem allocate_trades (b : h.Balanced held) (type : TypeId) (n : Int64) :
    Trades h 0 (outcome 0 ({·})) (allocate type n h) := by
  unfold allocate
  split
  · exact .refl
  · rename_i hc
    rw [Bool.or_eq_true, not_or, Bool.not_eq_true, Bool.not_eq_true, Bool.not_eq_false'] at hc
    obtain ⟨hb, hin⟩ := hc
    have hlt : type.index < h.types.types.size := by
      simpa [Registry.contains] using hin
    exact construct_leaf_trades b rfl (Array.getElem?_eq_getElem hlt) hb

/-! ### Reading -/

section Reading

variable {a : Ref} {E : Fault → Prop}

theorem get_ends (live : ∃ o, h.object? a = some o) : Ends E (fun o => h.object? a = some o) (h.get a) := by
  obtain ⟨o, live⟩ := live
  unfold get
  rw [live]
  exact rfl

theorem WellFormed.typeOf_ends (wf : h.WellFormed) (live : ∃ o, h.object? a = some o) :
    Ends E (fun _ => True) (h.typeOf a) := by
  refine (Ends.self fun f hf => ?_).mono fun _ _ => trivial
  obtain ⟨o, live⟩ := live
  obtain ⟨d, known, -⟩ := (wf.objects a o live).sized
  simp [typeOf, get, Registry.get, live, known, bind, Except.bind] at hf

theorem WellFormed.typeName_ends (wf : h.WellFormed) (live : ∃ o, h.object? a = some o) :
    Ends E (fun _ => True) (h.typeName a) :=
  (wf.typeOf_ends live).bind fun _ _ => trivial

theorem WellFormed.shortValue_ends (wf : h.WellFormed) (op : String) (live : ∃ o, h.object? a = some o) :
    Ends Fault.Limit (fun _ => True) (h.shortValue op a) := by
  refine Ends.lookBind (get_ends live) fun o _ => ?_
  cases o.payload with
  | short v => trivial
  | none | bool | tuple | host =>
    exact Ends.lookBind (wf.typeName_ends live) fun _ _ => trivial

/-- The items of a live tuple are live. -/
theorem Balanced.tupleItems_ends (b : h.Balanced held) (op : String) (live : ∃ o, h.object? a = some o) :
    Ends Fault.Limit (fun x => ∀ items, x = .ok items → ∀ r ∈ items, ∃ o, h.object? r = some o)
      (h.tupleItems op a) := by
  refine Ends.lookBind (get_ends live) fun o ho => ?_
  cases hp : o.payload with
  | tuple items =>
    intro items' he r hr
    cases he
    exact b.item_live ho (by rwa [hp])
  | none | bool | short | host =>
    exact Ends.lookBind (b.wellFormed.typeName_ends live) fun _ _ _ he => by cases he

theorem Balanced.tupleItem_ends (b : h.Balanced held) (op : String) (index : Int)
    (live : ∃ o, h.object? a = some o) :
    Ends Fault.Limit (fun x => ∀ r, x = .ok r → ∃ o, h.object? r = some o) (h.tupleItem op a index) := by
  refine Ends.readBind (b.tupleItems_ends op live) (fun items hi => ?_) fun e _ r he => by cases he
  have hlive := hi items rfl
  dsimp only
  generalize (if index < 0 then index + (items.length : Int) else index) = position
  split
  · exact fun r he => by cases he
  · cases hr : items[position.toNat]? with
    | some r =>
      intro r' he
      cases he
      exact hlive r (List.mem_of_getElem? hr)
    | none => exact fun r he => by cases he

end Reading

/-! ### The built-in handlers -/

/-- What was only looked at is given back. -/
theorem releaseAll_after {g : Heap κ} {made : Multiset Ref} {refs : List Ref} (b : h.Balanced (refs + rest))
    (d : Deals h 0 g made) : Deals h refs (g.releaseAll refs) made := by
  have d' := d.frame refs
  rw [zero_add, add_comm] at d'
  have b' := d'.balanced b
  rw [add_assoc] at b'
  have last := (releaseAll_deals b').frame made
  rw [zero_add] at last
  exact d'.trans last

theorem consuming_trades {refs : List Ref} {body : RunM κ α} {made : Except RunError α → Multiset Ref}
    (b : h.Balanced (refs + rest)) (hb : Trades h 0 made (body h)) : Trades h refs made (consuming refs body h) :=
  Ends.bind hb fun _ d => releaseAll_after b d

theorem item_trades {a : Ref} (b : h.Balanced held) (ha : a ∈ held) (op : String) (index : Int) :
    Trades h 0 (outcome 0 ({·})) (item op a index h) := by
  refine .read (b.tupleItem_ends op index (b.held_live ha)) (fun r hr => ?_) fun _ => rfl
  obtain ⟨o, live⟩ := hr r rfl
  exact Ends.lift (newRef_trades live)

namespace Short

theorem result_trades (b : h.Balanced held) (op : String) (v : Option Int32) :
    Trades h 0 (outcome 0 ({·})) ((checked op v >>= short : RunM κ Ref) h) := by
  cases v with
  | some v => exact short_trades b v
  | none => exact .refl

theorem unary_trades {a : Ref} (b : h.Balanced ({a} + rest)) (op : UnaryOp) (f : Int32 → Option Int32) :
    Trades h {a} (outcome 0 ({·})) (unary op f a h) := by
  refine consuming_trades b (.read (b.wellFormed.shortValue_ends _ ?_) (fun x _ => ?_) fun _ => rfl)
  · exact b.held_live (by simp)
  · exact result_trades b _ _

theorem arithmetic_trades {x y : Ref} (b : h.Balanced ([x, y] + rest)) (op : BinaryOp)
    (f : Int32 → Int32 → Option Int32) : Trades h [x, y] (outcome 0 ({·})) (arithmetic op f x y h) := by
  refine consuming_trades b (.read (b.wellFormed.shortValue_ends _ ?_) (fun _ _ =>
    .read (b.wellFormed.shortValue_ends _ ?_) (fun _ _ => result_trades b _ _) fun _ => rfl) fun _ => rfl)
  · exact b.held_live (by simp)
  · exact b.held_live (by simp)

theorem division_trades {x y : Ref} (b : h.Balanced ([x, y] + rest)) (op : BinaryOp)
    (f : Int32 → Int32 → Option Int32) : Trades h [x, y] (outcome 0 ({·})) (division op f x y h) := by
  refine consuming_trades b (.read (b.wellFormed.shortValue_ends _ ?_) (fun _ _ =>
    .read (b.wellFormed.shortValue_ends _ ?_) (fun _ _ => ?_) fun _ => rfl) fun _ => rfl)
  · exact b.held_live (by simp)
  · exact b.held_live (by simp)
  · split
    · exact .refl
    · exact result_trades b _ _

theorem power_trades {x e m : Ref} (b : h.Balanced ([x, e, m] + rest)) :
    Trades h [x, e, m] (outcome 0 ({·})) (power x e m h) := by
  have hm : ∃ o, h.object? m = some o := b.held_live (by simp)
  refine consuming_trades b (.read (b.wellFormed.shortValue_ends _ ?_) (fun _ _ =>
    .read (b.wellFormed.shortValue_ends _ ?_) (fun _ _ => ?_) fun _ => rfl) fun _ => rfl)
  · exact b.held_live (by simp)
  · exact b.held_live (by simp)
  split
  · exact .refl
  refine .read (P := fun _ => True) ?_ (fun o _ => ?_) fun _ => rfl
  · exact Ends.bind (get_ends hm) fun _ _ => trivial
  split
  · exact result_trades b _ _
  refine .read (b.wellFormed.shortValue_ends _ hm) (fun _ _ => ?_) fun _ => rfl
  split
  · exact .refl
  · exact short_trades b _

end Short

namespace Tuple

/-- A new reference leaves all live objects live. -/
theorem live_setSlot {r a : Ref} {o : Object} (o' : Object) (live : h.object? r = some o)
    (ha : ∃ o, h.object? a = some o) : ∃ o, (h.setSlot r (.live o')).object? a = some o := by
  have w : h.store.Writes (h.setSlot r (.live o')).store r (.live o') := Store.writes_put (slot_of_object? live) _
  by_cases har : a = r
  · subst har
    exact ⟨o', w.object?_self⟩
  · obtain ⟨o₁, ha⟩ := ha
    exact ⟨o₁, (w.object?_other har).trans ha⟩

theorem share_trades : ∀ {items : List Ref} {h : Heap κ}, (∀ r ∈ items, ∃ o, h.object? r = some o) →
    Trades h 0 (fun _ => items) (share items h)
  | [], _, _ => .refl
  | r :: items, h, live => by
    obtain ⟨o, hr⟩ := live r List.mem_cons_self
    have more : Ends Fault.Limit (fun p => p.2 = h.setSlot r (.live { o with refcount := o.refcount + 1 }))
        (newRef r h) := by
      unfold newRef acquire
      rw [hr]
      exact rfl
    refine Ends.heapBind more fun _ g hg => ?_
    change g = _ at hg
    subst hg
    have last := share_trades fun a ha => live_setSlot { o with refcount := o.refcount + 1 } hr
      (live a (List.mem_cons_of_mem r ha))
    refine last.mono fun p d => ?_
    have he : (items : Multiset Ref) + {r} = ((r :: items : List Ref) : Multiset Ref) := by
      rw [add_comm, Multiset.singleton_add, Multiset.cons_coe]
    have d' := d.frame {r}
    rw [zero_add, he] at d'
    exact (Deals.acquire hr).trans d'

theorem concat_trades {x y : Ref} (b : h.Balanced ([x, y] + rest)) :
    Trades h [x, y] (outcome 0 ({·})) (concat x y h) := by
  refine consuming_trades b (.read (b.tupleItems_ends _ ?_) (fun xs hxs =>
    .read (b.tupleItems_ends _ ?_) (fun ys hys => ?_) fun _ => rfl) fun _ => rfl)
  · exact b.held_live (by simp)
  · exact b.held_live (by simp)
  have live : ∀ r ∈ xs ++ ys, ∃ o, h.object? r = some o := by
    intro r hr
    rcases List.mem_append.mp hr with hr | hr
    · exact hxs xs rfl r hr
    · exact hys ys rfl r hr
  rw [← zero_add (([x, y] : List Ref) + rest : Multiset Ref)] at b
  have shared : Trades h 0 (outcome 0 fun _ => ((xs ++ ys : List Ref) : Multiset Ref))
      ((ExceptT.lift (share (xs ++ ys)) : RunM κ Unit) h) := Ends.lift (share_trades live)
  exact .runBind b shared (fun _ g b' => tuple_trades b') fun _ => rfl

theorem subscript_trades {x y : Ref} (b : h.Balanced ([x, y] + rest)) :
    Trades h [x, y] (outcome 0 ({·})) (subscript x y h) := by
  refine consuming_trades b (.read (b.wellFormed.shortValue_ends _ ?_) (fun _ _ => ?_) fun _ => rfl)
  · exact b.held_live (by simp)
  · exact item_trades b (by simp) _ _

end Tuple

end Heap

end CountedHeap
