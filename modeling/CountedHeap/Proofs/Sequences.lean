/-
# Tuples are lists

A tuple is made of a list of references, two tuples are concatenated by appending their
lists, and an index counts from the start or, if it is negative, from the end. The items
may be objects of any type, also of a host's, so all is said of references here and not
of data.

The operands of an operator are given back after the result is made, and they may die
of it. Then the items of the result are live only because the result has references of
its own to them: what a held tuple owns is kept with it (`Deals.owned_kept`).

Key definitions: `IsItem`, `Heap.Refers`, `Heap.Assembles`.
Key theorems: `Deals.owned_kept`, `Heap.Balanced.concat_assembles`, `tuples_as_lists`.
-/
import CountedHeap.Proofs.Powers

namespace CountedHeap

variable {κ : Role → Type}

/-! ### Indexes -/

/-- The indexes of a list, from the start and from the end. -/
def Indexes (items : List Ref) (i : Int) : Prop := -(items.length : Int) ≤ i ∧ i < items.length

instance (items : List Ref) (i : Int) : Decidable (Indexes items i) := inferInstanceAs (Decidable (_ ∧ _))

/-- The item at an index: that many places from the start, or from the end if it is negative. -/
def IsItem (items : List Ref) (i : Int) (r : Ref) : Prop :=
  ∃ k : Nat, items[k]? = some r ∧ ((k : Int) = i ∨ (k : Int) = items.length + i)

theorem Indexes.item {items : List Ref} {i : Int} (within : Indexes items i) : ∃ r, IsItem items i r := by
  obtain ⟨low, high⟩ := within
  rcases Int.lt_or_le i 0 with neg | nonneg
  · have hlt : (items.length + i).toNat < items.length := by omega
    exact ⟨_, _, List.getElem?_eq_getElem hlt, .inr (by omega)⟩
  · have hlt : i.toNat < items.length := by omega
    exact ⟨_, _, List.getElem?_eq_getElem hlt, .inl (by omega)⟩

namespace IsItem

variable {items xs ys : List Ref} {i : Int} {k : Nat} {r : Ref}

theorem mem (item : IsItem items i r) : r ∈ items := by
  obtain ⟨k, hk, -⟩ := item
  exact List.mem_of_getElem? hk

/-- The place of an item, as a number that is not negative. -/
theorem iff_getElem? : IsItem items i r ↔ 0 ≤ (if i < 0 then i + (items.length : Int) else i) ∧
    items[(if i < 0 then i + (items.length : Int) else i).toNat]? = some r := by
  constructor
  · rintro ⟨k, hk, place⟩
    obtain ⟨hlt, -⟩ := List.getElem?_eq_some_iff.mp hk
    have position : (if i < 0 then i + (items.length : Int) else i) = k := by split <;> omega
    rw [position]
    exact ⟨by omega, hk⟩
  · rintro ⟨nonneg, hk⟩
    refine ⟨_, hk, ?_⟩
    split at nonneg <;> omega

/-- The items of one list and then another, from either end. -/
theorem append (place : xs[k]? = some r ∧ (i = k ∨ i = k - (xs.length + ys.length)) ∨
    ys[k]? = some r ∧ (i = xs.length + k ∨ i = k - ys.length)) : IsItem (xs ++ ys) i r := by
  rcases place with ⟨hk, hi⟩ | ⟨hk, hi⟩
  · obtain ⟨hlt, -⟩ := List.getElem?_eq_some_iff.mp hk
    refine ⟨k, (List.getElem?_append_left hlt).trans hk, ?_⟩
    rw [List.length_append]
    omega
  · refine ⟨xs.length + k, ?_, ?_⟩
    · rw [List.getElem?_append_right (Nat.le_add_right _ _), Nat.add_sub_cancel_left, hk]
    · rw [List.length_append]
      omega

end IsItem

namespace Word

/-- A length as a word of 64 bits; the greatest of these words stands for all that are longer. -/
def wideLength (n : Nat) : Int64 := Int64.ofNat (min n 9223372036854775807)

/-- The place an index stands for in a list of this length, as the machine finds it. -/
def place (i : Int64) (n : Nat) : Int64 := if i < 0 then i + wideLength n else i

theorem toInt_wideLength (n : Nat) : (wideLength n).toInt = (min n 9223372036854775807 : Nat) :=
  Int64.toInt_ofNat_of_lt (by omega)

/-- A length brings a negative index nearer to zero or past it, by less than the index could be below. -/
theorem fits_place {i : Int64} (neg : i.toInt < 0) (n : Nat) : FitsWide (i.toInt + (wideLength n).toInt) := by
  have low := i.le_toInt
  rw [toInt_wideLength]
  unfold FitsWide
  omega

theorem toInt_place (i : Int64) {n : Nat} (hn : n ≤ 9223372036854775807) :
    (place i n).toInt = if i.toInt < 0 then i.toInt + n else i.toInt := by
  have hneg : i < 0 ↔ i.toInt < 0 := Int64.lt_iff_toInt_lt
  unfold place
  by_cases neg : i.toInt < 0
  · rw [if_pos (hneg.mpr neg), if_pos neg, wide_add (fits_place neg n), toInt_wideLength]
    omega
  · rw [if_neg (mt hneg.mp neg), if_neg neg]

/-- **The machine finds the item**, if the length is one of 64 bits. -/
theorem isItem_iff_place (i : Int64) {items : List Ref} {r : Ref} (hn : items.length ≤ 9223372036854775807) :
    IsItem items i.toInt r ↔
      0 ≤ (place i items.length).toInt ∧ items[(place i items.length).toInt.toNat]? = some r := by
  rw [toInt_place i hn, IsItem.iff_getElem?]

end Word

/-! ### What is kept -/

/-- What a held object owns is kept with it. -/
theorem Deals.owned_kept {h g : Heap κ} {given made rest : Multiset Ref} (d : Deals h given g made)
    (b : h.Balanced (given + rest)) {r z : Ref} {o p : Object} (live : h.object? r = some o) (hr : r ∈ rest)
    (owned : z ∈ o.payload.children) (live' : h.object? z = some p) :
    ∃ n, g.object? z = some { p with refcount := n } := by
  -- the owner has to be carried along, since it is what mentions the item at each step
  have both := d.induct (P := fun g => (∃ n, g.object? r = some { o with refcount := n }) ∧
    ∃ n, g.object? z = some { p with refcount := n }) b ⟨⟨_, live⟩, _, live'⟩ fun _ c b' kept => by
      obtain ⟨⟨_, live⟩, _, live'⟩ := kept
      obtain ⟨n, held⟩ := c.object_kept b' live (.inl (Multiset.mem_add.mpr (.inr hr)))
      obtain ⟨m, named⟩ := c.object_kept b' live' (.inr (Heap.mentions_pos live owned))
      exact ⟨⟨n, held⟩, m, named⟩
  exact both.2

namespace Heap

variable {h g : Heap κ} {a b r : Ref} {items xs ys : List Ref} {rest : Multiset Ref}

/-- The objects are live in both heaps and differ in their counts at most. -/
def Keeps (h g : Heap κ) (refs : List Ref) : Prop :=
  ∀ z ∈ refs, ∃ o n, h.object? z = some o ∧ g.object? z = some { o with refcount := n }

/-- Each count is the number of references held, of places in live objects, and one if it is immortal. -/
def Counts (h : Heap κ) (held : Multiset Ref) : Prop :=
  ∀ r o, h.object? r = some o → o.refcount = held.count r + h.store.mentions r + if o.immortal then 1 else 0

theorem Balanced.counts {held : Multiset Ref} (bal : h.Balanced held) : h.Counts held := by
  intro r o live
  have exact := bal.exact r
  rwa [live] at exact

namespace IsTuple

theorem get (tuple : h.IsTuple a items) : ∃ o, h.get a = .ok o ∧ o.payload = .tuple items := by
  obtain ⟨o, live, payload⟩ := tuple
  refine ⟨o, ?_, payload⟩
  unfold Heap.get
  rw [live]

theorem items_live {held : Multiset Ref} (tuple : h.IsTuple a items) (bal : h.Balanced held) :
    ∀ z ∈ items, ∃ o, h.object? z = some o := by
  obtain ⟨o, live, payload⟩ := tuple
  exact fun z hz => bal.item_live live (by rwa [payload])

theorem typeOf (tuple : h.IsTuple a items) (wf : h.WellFormed) : h.typeOf a = .ok Registry.tupleType := by
  obtain ⟨o, live, payload⟩ := tuple
  have fits : o.payload.Fits o.type := (wf.objects a o live).fits
  rw [payload] at fits
  have known : h.types.get? o.type = some Registry.tupleType := by
    rw [show o.type = .tuple from fits]
    exact wf.builtin .tuple rfl
  simp only [Heap.typeOf, Heap.get, live, Registry.get, known, bind, Except.bind]

theorem tupleItems (tuple : h.IsTuple a items) (op : String) : h.tupleItems op a = .ok (.ok items) := by
  obtain ⟨o, hget, payload⟩ := tuple.get
  rw [Heap.tupleItems, hget]
  refine (look_bind o _).trans ?_
  simp only [payload]
  rfl

theorem tupleLength (tuple : h.IsTuple a items) : h.tupleLength a = .ok items.length := by
  obtain ⟨o, hget, payload⟩ := tuple.get
  simp only [Heap.tupleLength, Heap.tupleItems?, hget, payload, bind, Except.bind, pure, Except.pure, Option.elim]

theorem consult_length (tuple : h.IsTuple a items) (wf : h.WellFormed) (host : Host κ) :
    host.consult h (.length a) = .ok (.ok items.length) := by
  unfold Host.consult
  rw [consulting_eq]
  unfold consult
  dsimp only
  rw [tuple.typeOf wf]
  show (do return .ok (← h.tupleLength a) : Except Fault (Except RunError Nat)) = _
  rw [tuple.tupleLength]
  rfl

theorem tupleItem (tuple : h.IsTuple a items) (op : String) {i : Int} (item : IsItem items i r) :
    h.tupleItem op a i = .ok (.ok r) := by
  obtain ⟨nonneg, hk⟩ := IsItem.iff_getElem?.mp item
  rw [Heap.tupleItem, tuple.tupleItems op]
  refine (look_bind items _).trans ?_
  dsimp only
  rw [if_neg (Int.not_lt.mpr nonneg), hk]
  rfl

theorem tupleItem_outside (tuple : h.IsTuple a items) (op : String) {i : Int} (outside : ¬ Indexes items i) :
    h.tupleItem op a i = .ok (.error (.invalidOperand op "tuple index out of range")) := by
  rw [Heap.tupleItem, tuple.tupleItems op]
  refine (look_bind items _).trans ?_
  dsimp only
  unfold Indexes at outside
  by_cases neg : (if i < 0 then i + (items.length : Int) else i) < 0
  · rw [if_pos neg]
    rfl
  · have past : items.length ≤ (if i < 0 then i + (items.length : Int) else i).toNat := by split at * <;> omega
    rw [if_neg neg, List.getElem?_eq_none past]
    rfl

end IsTuple

/-! ### Making tuples -/

theorem reading_bind {α : Type} {f : Heap κ → ReadM α} {x : α} (looked : f h = .ok (.ok x)) (body : α → RunM κ Ref) :
    (reading f >>= body) h = body x h := by
  show (reading f h >>= fun p => ExceptT.bindCont body p.1 p.2 : Except Fault _) = _
  unfold reading
  rw [looked]
  rfl

theorem reading_stop {α : Type} {f : Heap κ → ReadM α} {e : RunError} (looked : f h = .ok (.error e))
    (body : α → RunM κ Ref) : (reading f >>= body) h = .ok (.error e, h) := by
  show (reading f h >>= fun p => ExceptT.bindCont body p.1 p.2 : Except Fault _) = _
  unfold reading
  rw [looked]
  rfl

/-- Giving operands back after `body` has made something beside them. -/
theorem Balanced.consuming_ok {α : Type} {refs : List Ref} {made : Multiset Ref} {body : RunM κ α}
    {x : Except RunError α} (bal : h.Balanced (refs + rest)) (done : body h = .ok (x, g)) (d : Deals h 0 g made) :
    consuming refs body h = .ok (x, g.releaseAll refs) ∧ g.Balanced (refs + (made + rest)) ∧
      Deals g refs (g.releaseAll refs) 0 ∧ (g.releaseAll refs).Balanced (made + rest) := by
  have between : g.Balanced (refs + (made + rest)) := by
    rw [add_left_comm]
    exact d.balanced (by rwa [zero_add])
  have given := releaseAll_deals between
  refine ⟨?_, between, given, ?_⟩
  · unfold consuming
    rw [done]
    rfl
  · rw [← zero_add (made + rest)]
    exact given.balanced between

/-- **Concatenation appends the items**, which are kept even if the operands die. -/
theorem Balanced.concat_assembles (bal : h.Balanced ([a, b] + rest)) (roomy : h.ledger.tracker.Roomy)
    (left : h.IsTuple a xs) (right : h.IsTuple b ys) :
    ∃ r g, Tuple.concat a b h = .ok (.ok r, g) ∧ g.IsTuple r (xs ++ ys) ∧ h.Keeps g (xs ++ ys) ∧
      g.Balanced ({r} + rest) := by
  have live : ∀ z ∈ xs ++ ys, ∃ o, h.object? z = some o := by
    intro z hz
    rcases List.mem_append.mp hz with hz | hz
    · exact left.items_live bal z hz
    · exact right.items_live bal z hz
  obtain ⟨r, g, done, ⟨o, made, payload⟩, retains, d⟩ := bal.shared_assembles roomy live
  obtain ⟨done', between, given, balanced⟩ := bal.consuming_ok done d
  refine ⟨r, g.releaseAll [a, b], ?_, ?_, fun z hz => ?_, balanced⟩
  · rw [← done']
    unfold Tuple.concat consuming
    rw [reading_bind (left.tupleItems _), reading_bind (right.tupleItems _)]
  · obtain ⟨n, kept⟩ := given.object_kept between made (by simp)
    exact ⟨_, kept, payload⟩
  · obtain ⟨p, hp⟩ := live z hz
    obtain ⟨n, hp'⟩ := retains z p hp
    obtain ⟨m, kept⟩ := given.owned_kept between made (by simp) (by rwa [payload]) hp'
    exact ⟨p, m, hp, kept⟩

/-! ### Handing items out -/

/-- All that happens is that a reference to a live object is handed out and counted. -/
def Refers (h : Heap κ) (r : Ref) (m : Except Fault (Except RunError Ref × Heap κ)) : Prop :=
  ∃ o, h.object? r = some o ∧ m = .ok (.ok r, h.setSlot r (.live { o with refcount := o.refcount + 1 }))

theorem Balanced.item_refers {held : Multiset Ref} (bal : h.Balanced held) (tuple : h.IsTuple a items) (op : String)
    {i : Int} (item : IsItem items i r) : h.Refers r (Heap.item op a i h) := by
  obtain ⟨o, live⟩ := tuple.items_live bal r item.mem
  refine ⟨o, live, ?_⟩
  unfold Heap.item
  rw [reading_bind (tuple.tupleItem op item)]
  show (newRef r h >>= fun p => Except.ok (Except.ok p.1, p.2) : Except Fault _) = _
  unfold newRef acquire
  rw [live]
  rfl

theorem IsTuple.item_outside (tuple : h.IsTuple a items) (op : String) {i : Int} (outside : ¬ Indexes items i) :
    Heap.item op a i h = .ok (.error (.invalidOperand op "tuple index out of range"), h) :=
  reading_stop (tuple.tupleItem_outside op outside) _

theorem IsShort.subscript_eq {i : Int32} (short : h.IsShort b i) :
    Tuple.subscript a b h = consuming [a, b] (Heap.item BinaryOp.subscript.symbol a i.toInt) h := by
  unfold Tuple.subscript consuming
  rw [reading_bind (short.shortValue "short")]

/-- **A subscript hands an item out**, which is kept even if the tuple dies. -/
theorem Balanced.subscript_refers (bal : h.Balanced ([a, b] + rest)) (tuple : h.IsTuple a items) {i : Int32}
    (short : h.IsShort b i) (item : IsItem items i.toInt r) :
    ∃ g, Tuple.subscript a b h = .ok (.ok r, g) ∧ h.Keeps g [r] ∧ g.Balanced ({r} + rest) := by
  obtain ⟨o, live, done⟩ := bal.item_refers tuple BinaryOp.subscript.symbol item
  obtain ⟨done', between, given, balanced⟩ := bal.consuming_ok done (.acquire live)
  refine ⟨_, short.subscript_eq.trans done', fun z hz => ?_, balanced⟩
  cases List.mem_singleton.mp hz
  obtain ⟨n, acquired⟩ := retains_acquire live r o live
  obtain ⟨m, kept⟩ := given.object_kept between acquired (by simp)
  exact ⟨o, m, live, kept⟩

theorem Balanced.subscript_outside (bal : h.Balanced ([a, b] + rest)) (tuple : h.IsTuple a items) {i : Int32}
    (short : h.IsShort b i) (outside : ¬ Indexes items i.toInt) :
    ∃ g, Tuple.subscript a b h = .ok (.error (.invalidOperand "[]" "tuple index out of range"), g) ∧
      g.Balanced rest := by
  have done := tuple.item_outside BinaryOp.subscript.symbol outside
  obtain ⟨done', -, -, balanced⟩ := bal.consuming_ok done .refl
  rw [zero_add] at balanced
  exact ⟨_, short.subscript_eq.trans done', balanced⟩

end Heap

/-! ### Requests -/

/-- The answer is a reference to a tuple of these items, which are all kept, and it is held instead of
what the tuple was made from. -/
def Heap.Assembles (host : Host κ) (h : Heap κ) (items : List Ref) (rest : Multiset Ref)
    (m : Except Fault (Except RunError Ref × Heap κ)) : Prop :=
  ∃ r g, m = .ok (.ok r, g) ∧ g.IsTuple r items ∧ host.consult g (.length r) = .ok (.ok items.length) ∧
    h.Keeps g items ∧ g.Counts ({r} + rest)

namespace Host

variable {h : Heap κ} {a b r : Ref} {items xs ys : List Ref} {rest : Multiset Ref} (host : Host κ)

/-- An operator on a tuple goes to the handler of tuples, after an event of that. -/
theorem binary_of_tuple (wf : h.WellFormed) (tuple : h.IsTuple a items) (op : BinaryOp) {f : Builtin .binary}
    (offers : (Registry.tupleType (κ := κ)).binary? op = some (.builtin f)) (b : Ref) :
    ∃ event inner, host.perform (.binary op a b) h = Handler.binary host inner (.builtin f) a b (h.emit event) := by
  obtain ⟨n, inner, hstep⟩ := host.perform_eq_step
  refine ⟨.dispatch op.symbol "tuple" 0, inner, ?_⟩
  rw [hstep]
  show Heap.dispatch op.symbol (·.binary? op) [a, b] (fun f => f.binary host inner a b) h = _
  unfold Heap.dispatch
  rw [Heap.resolve_found (tuple.typeOf wf) offers]
  rfl

theorem perform_item (a : Ref) (i : Int) : host.perform (.item a i) = Heap.item "tuple item" a i := by
  obtain ⟨n, inner, hstep⟩ := host.perform_eq_step
  rw [hstep]
  rfl

theorem perform_tuple (items : List Ref) : host.perform (.tuple items) = Heap.tuple items := by
  obtain ⟨n, inner, hstep⟩ := host.perform_eq_step
  rw [hstep]
  rfl

theorem tuple_assembles (bal : h.Balanced (items + rest)) (roomy : h.ledger.tracker.Roomy) :
    h.Assembles host items rest (host.perform (.tuple items) h) := by
  obtain ⟨r, g, done, made, retains, d⟩ := bal.tuple_assembles roomy
  have bal' := d.balanced bal
  refine ⟨r, g, (congrFun (host.perform_tuple items) h).trans done, made, made.consult_length bal'.wellFormed host,
    fun z hz => ?_, bal'.counts⟩
  obtain ⟨o, live⟩ := bal.held_live (Multiset.mem_add.mpr (.inl hz))
  obtain ⟨n, kept⟩ := retains z o live
  exact ⟨o, n, live, kept⟩

theorem concat_balances (bal : h.Balanced ([a, b] + rest)) (roomy : h.ledger.tracker.Roomy)
    (left : h.IsTuple a xs) (right : h.IsTuple b ys) :
    ∃ r g, host.perform (.binary .concat a b) h = .ok (.ok r, g) ∧ g.IsTuple r (xs ++ ys) ∧
      h.Keeps g (xs ++ ys) ∧ g.Balanced ({r} + rest) := by
  obtain ⟨event, inner, called⟩ := host.binary_of_tuple bal.wellFormed left .concat rfl b
  obtain ⟨r, g, done, made, kept, balanced⟩ := (bal.emit event).concat_assembles roomy left right
  exact ⟨r, g, called.trans done, made, kept, balanced⟩

theorem subscript_refers (bal : h.Balanced ([a, b] + rest)) (tuple : h.IsTuple a items) {i : Int32}
    (short : h.IsShort b i) (item : IsItem items i.toInt r) :
    ∃ g, host.perform (.binary .subscript a b) h = .ok (.ok r, g) ∧ h.Keeps g [r] ∧ g.Balanced ({r} + rest) := by
  obtain ⟨event, inner, called⟩ := host.binary_of_tuple bal.wellFormed tuple .subscript rfl b
  obtain ⟨g, done, kept, balanced⟩ := (bal.emit event).subscript_refers tuple short item
  exact ⟨g, called.trans done, kept, balanced⟩

theorem subscript_outside (bal : h.Balanced ([a, b] + rest)) (tuple : h.IsTuple a items) {i : Int32}
    (short : h.IsShort b i) (outside : ¬ Indexes items i.toInt) :
    ∃ g, host.perform (.binary .subscript a b) h =
        .ok (.error (.invalidOperand "[]" "tuple index out of range"), g) ∧ g.Balanced rest := by
  obtain ⟨event, inner, called⟩ := host.binary_of_tuple bal.wellFormed tuple .subscript rfl b
  obtain ⟨g, done, balanced⟩ := (bal.emit event).subscript_outside tuple short outside
  exact ⟨g, called.trans done, balanced⟩

end Host

/-- **Tuples are lists.** In any state of a balanced run with no limit on blocks and bytes, a tuple has the references
it is made of as its items, and a concatenation those of the first operand and then of the second, also if they are
the same or die. An index from minus the length to below the length hands out a new reference to the item so many
places from the start, or from the end if it is negative; any other is refused. Adding a length to a negative index
does not leave 64 bits. -/
theorem tuples_as_lists {host : Host κ} (disciplined : host.Disciplined) {c : Config} {h : Heap κ}
    {held : Multiset Ref} (run : Run host 0 (.ofConfig c) 0 h held) (roomy : h.ledger.tracker.Roomy) :
    (∀ (items : List Ref) rest, held = items + rest →
      h.Assembles host items rest (host.perform (.tuple items) h)) ∧
    (∀ a b xs ys rest, held = {a, b} + rest → h.IsTuple a xs → h.IsTuple b ys →
      h.Assembles host (xs ++ ys) rest (host.perform (.binary .concat a b) h)) ∧
    (∀ a xs (i : Int), h.IsTuple a xs →
      (Indexes xs i → ∃ r, IsItem xs i r ∧ h.Refers r (host.perform (.item a i) h)) ∧
      (¬ Indexes xs i → host.perform (.item a i) h =
        .ok (.error (.invalidOperand "tuple item" "tuple index out of range"), h))) ∧
    (∀ a b xs (i : Int32) rest, held = {a, b} + rest → h.IsTuple a xs → h.IsShort b i →
      (Indexes xs i.toInt → ∃ r g, IsItem xs i.toInt r ∧ host.perform (.binary .subscript a b) h = .ok (.ok r, g) ∧
        h.Keeps g [r] ∧ g.Counts ({r} + rest)) ∧
      (¬ Indexes xs i.toInt → ∃ g, host.perform (.binary .subscript a b) h =
        .ok (.error (.invalidOperand "[]" "tuple index out of range"), g) ∧ g.Counts rest)) ∧
    (∀ a b xs ys rest r g, held = {a, b} + rest → h.IsTuple a xs → h.IsTuple b ys →
      host.perform (.binary .concat a b) h = .ok (.ok r, g) →
      ∀ (k : Nat) (i : Int) z,
        (xs[k]? = some z ∧ (i = k ∨ i = k - (xs.length + ys.length)) ∨
          ys[k]? = some z ∧ (i = xs.length + k ∨ i = k - ys.length)) →
        g.Refers z (host.perform (.item r i) g) ∧
        ∀ b' (j : Int32) rest', rest = {b'} + rest' → g.IsShort b' j → j.toInt = i →
          ∃ g', host.perform (.binary .subscript r b') g = .ok (.ok z, g') ∧ g.Keeps g' [z] ∧
            g'.Counts ({z} + rest')) ∧
    ∀ i : Int64,
      (i.toInt < 0 → ∀ n, Word.FitsWide (i.toInt + (Word.wideLength n).toInt)) ∧
      ∀ xs r, xs.length ≤ 9223372036854775807 → (IsItem xs i.toInt r ↔
        0 ≤ (Word.place i xs.length).toInt ∧ xs[(Word.place i xs.length).toInt.toNat]? = some r) := by
  have bal := run.balanced disciplined (Heap.balanced_ofConfig c)
  refine ⟨?_, ?_, ?_, ?_, ?_, fun i => ⟨fun neg n => Word.fits_place neg n, fun xs r hn => Word.isItem_iff_place i hn⟩⟩
  · rintro items rest rfl
    exact host.tuple_assembles bal roomy
  · rintro a b xs ys rest rfl left right
    obtain ⟨r, g, done, made, kept, balanced⟩ := host.concat_balances bal roomy left right
    exact ⟨r, g, done, made, made.consult_length balanced.wellFormed host, kept, balanced.counts⟩
  · intro a xs i tuple
    rw [host.perform_item]
    refine ⟨fun within => ?_, tuple.item_outside "tuple item"⟩
    obtain ⟨r, item⟩ := within.item
    exact ⟨r, item, bal.item_refers tuple "tuple item" item⟩
  · rintro a b xs i rest rfl tuple short
    refine ⟨fun within => ?_, fun outside => ?_⟩
    · obtain ⟨r, item⟩ := within.item
      obtain ⟨g, done, kept, balanced⟩ := host.subscript_refers bal tuple short item
      exact ⟨r, g, item, done, kept, balanced.counts⟩
    · obtain ⟨g, done, balanced⟩ := host.subscript_outside bal tuple short outside
      exact ⟨g, done, balanced.counts⟩
  · rintro a b xs ys rest r g rfl left right done k i z place
    obtain ⟨r', g', done', made, -, balanced⟩ := host.concat_balances bal roomy left right
    rw [done] at done'
    cases done'
    have item : IsItem (xs ++ ys) i z := IsItem.append place
    refine ⟨?_, ?_⟩
    · rw [host.perform_item]
      exact balanced.item_refers made "tuple item" item
    · rintro b' j rest' rfl short rfl
      obtain ⟨g', done, kept, balanced⟩ := host.subscript_refers (by rwa [← add_assoc] at balanced) made short item
      exact ⟨g', done, kept, balanced.counts⟩

namespace Stock

/-- A tuple of 1 and 2 that is held twice, and -2. -/
def doubling : List (Request Name) := [.short 1, .short 2, .tuple [⟨3⟩, ⟨4⟩], .acquire ⟨5⟩, .short (-2)]

end Stock

/-- A tuple dies of being concatenated with itself. Its items are there twice in the result, at either end; and
the least index of 64 bits is refused as any other out of range. -/
theorem tuples_as_lists_dying : ∃ h : Heap Stock.Name,
    Run (Stock.host 8) 0 (.ofConfig Stock.sampleConfig) 0 h {⟨5⟩, ⟨5⟩, ⟨6⟩} ∧ h.IsTuple ⟨5⟩ [⟨3⟩, ⟨4⟩] ∧
    (∃ r g, (Stock.host 8).perform (.binary .concat ⟨5⟩ ⟨5⟩) h = .ok (.ok r, g) ∧
      g.IsTuple r [⟨3⟩, ⟨4⟩, ⟨3⟩, ⟨4⟩] ∧ g.Counts {r, ⟨6⟩} ∧
      g.Refers ⟨3⟩ ((Stock.host 8).perform (.item r (-4)) g) ∧ g.Refers ⟨4⟩ ((Stock.host 8).perform (.item r 3) g)) ∧
    (∃ r g, IsItem [⟨3⟩, ⟨4⟩] (-2) r ∧ (Stock.host 8).perform (.binary .subscript ⟨5⟩ ⟨6⟩) h = .ok (.ok r, g)) ∧
    (Stock.host 8).perform (.item ⟨5⟩ (-9223372036854775808)) h =
      .ok (.error (.invalidOperand "tuple item" "tuple index out of range"), h) := by
  have hplay : ((Stock.host 8).play 0 Stock.doubling (.ofConfig Stock.sampleConfig) 0).map
      (fun p => (p.2, p.1.ledger.tracker, [5, 6].map fun i => p.1.object? ⟨i⟩)) =
      some ({⟨5⟩, ⟨5⟩, ⟨6⟩}, .unmetered, [some ⟨2, .tuple, 2, 40, false, .tuple [⟨3⟩, ⟨4⟩]⟩,
        some ⟨1, .short, 0, 16, false, .short (-2)⟩]) := by
    decide +kernel
  obtain ⟨h, run, seen⟩ := Run.of_play (fun h => (h.ledger.tracker, [5, 6].map fun i => h.object? ⟨i⟩))
    (Multiset.zero_le _) hplay
  simp only [List.map_cons, List.map_nil, Prod.mk.injEq, List.cons.injEq, and_true] at seen
  obtain ⟨tracker, five, six⟩ := seen
  have tuple : h.IsTuple ⟨5⟩ [⟨3⟩, ⟨4⟩] := ⟨_, five, rfl⟩
  obtain ⟨-, concat, item, subscript, joined, -⟩ :=
    tuples_as_lists (Stock.host_disciplined 8) run (tracker ▸ trivial)
  obtain ⟨r, g, done, made, -, -, counts⟩ := concat ⟨5⟩ ⟨5⟩ _ _ {⟨6⟩} rfl tuple tuple
  have items := joined ⟨5⟩ ⟨5⟩ _ _ {⟨6⟩} r g rfl tuple tuple done
  obtain ⟨r', g', named, done', -⟩ := (subscript ⟨5⟩ ⟨6⟩ _ (-2) {⟨5⟩} (by decide) tuple ⟨_, six, rfl⟩).1 (by decide)
  refine ⟨h, run, tuple, ⟨r, g, done, made, counts, ?_, ?_⟩, ⟨r', g', named, done'⟩, ?_⟩
  · exact (items 0 (-4) ⟨3⟩ (by decide)).1
  · exact (items 1 3 ⟨4⟩ (by decide)).1
  · exact (item ⟨5⟩ _ _ tuple).2 (by decide)

end CountedHeap
