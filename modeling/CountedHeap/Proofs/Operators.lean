/-
# Only values matter to operators

Two heaps may hold the same data in different ways: one has interned a short that the
other makes anew, two tuples share an item in one of them and not in the other. Every
operator, comparison and query on data comes to a function of the data, so it gives the
same in both: the same error, the same truth value or number, or references that denote
the same datum.

The one place where the code asks which object it has is the equality of tuples, where
an item equals itself without being looked at. This does not show. A reference denotes
one datum, so the items are equal; and the comparison that is left out could have failed
only for two `None`, which are one object in every heap of a run. What a comparison can
run into is the end of the native stack, and only if both trees are higher than it.

Key definitions: `Overflows`, `Concur`.
Key theorems: `Heap.itemsEqual_denotes`, `Handler.compare_denotes`, `Run.ready`,
`operators_by_value`.
-/
import CountedHeap.Proofs.Denotation
import CountedHeap.Proofs.Likeness

namespace CountedHeap

variable {κ : Role → Type} {E : Fault → Prop}

namespace Heap

variable {h : Heap κ} {a b : Ref} {x y : Datum} {op : CompareOp}
  {equal : Ref → Ref → Except Fault (Except RunError Bool)}

/-! ### Truth values and shorts -/

theorem boolEqual_denotes (hx : h.Denotes a x) (hy : h.Denotes b y)
    (offers : x.comparison? op = some .boolEqual ∨ y.comparison? op = some .boolEqual) :
    h.boolEqual a b = .ok (decide (x = y)) := by
  rw [← Datum.bool?_eq offers]
  unfold boolEqual
  rw [hx.bool?, hy.bool?]
  rfl

theorem shortEqual_denotes (hx : h.Denotes a x) (hy : h.Denotes b y)
    (offers : x.comparison? op = some .shortEqual ∨ y.comparison? op = some .shortEqual) :
    h.shortEqual a b = .ok (decide (x = y)) := by
  rw [← Datum.short?_eq offers]
  unfold shortEqual
  rw [hx.short?, hy.short?]
  rfl

theorem shortLessOrEqual_denotes (wf : h.WellFormed) (hx : h.Denotes a x) (hy : h.Denotes b y) :
    h.shortLessOrEqual a b = .ok (x.shortLessOrEqual y) := by
  unfold shortLessOrEqual Datum.shortLessOrEqual
  rw [hx.shortValue wf, hy.shortValue wf]
  cases x.asShort CompareOp.lessOrEqual.symbol <;> cases y.asShort CompareOp.lessOrEqual.symbol <;> rfl

/-! ### Equality of tuples -/

/-- **The shortcut for one object does not show.** Only items that are two objects are compared. -/
theorem itemsEqual_denotes {refs : List Ref} {xs : List Datum} (hxs : List.Forall₂ h.Denotes refs xs) :
    ∀ {refs' : List Ref} {ys : List Datum}, List.Forall₂ h.Denotes refs' ys → xs.length = ys.length →
    (∀ a b x y, x ∈ xs → y ∈ ys → h.Denotes a x → h.Denotes b y → a ≠ b →
      Ends E (· = .ok (decide (x = y))) (equal a b)) →
    Ends E (· = .ok (decide (xs = ys))) (itemsEqual equal refs refs') := by
  induction hxs with
  | nil =>
    intro refs' ys hys hlen _
    cases hys with
    | nil => exact rfl
    | cons => cases hlen
  | @cons a x refs xs hx hxs ih =>
    intro refs' ys hys hlen each
    cases hys with
    | nil => cases hlen
    | @cons b y refs' ys hy hys =>
      have tail := ih hys (Nat.succ.inj hlen) fun a b x y hx hy =>
        each a b x y (List.mem_cons_of_mem _ hx) (List.mem_cons_of_mem _ hy)
      unfold itemsEqual
      by_cases hab : a = b
      · subst hab
        rw [if_pos rfl, hx.unique hy]
        simpa using tail
      · rw [if_neg hab]
        refine Ends.bind (each a b x y List.mem_cons_self List.mem_cons_self hx hy hab) fun answer ha => ?_
        subst ha
        by_cases hxy : x = y
        · subst hxy
          simpa using tail
        · simp only [hxy, decide_false, List.cons.injEq, false_and]
          exact rfl

theorem tupleEqual_denotes {xs ys : List Datum} (hx : h.Denotes a (.tuple xs)) (hy : h.Denotes b (.tuple ys))
    (each : ∀ a b x y, x ∈ xs → y ∈ ys → h.Denotes a x → h.Denotes b y → a ≠ b →
      Ends E (· = .ok (decide (x = y))) (equal a b)) :
    Ends E (· = .ok (decide (Datum.tuple xs = .tuple ys))) (h.tupleEqual equal a b) := by
  obtain ⟨_, found, ⟨hxs⟩⟩ := hx.items?
  obtain ⟨_, found', ⟨hys⟩⟩ := hy.items?
  unfold tupleEqual
  rw [found, found']
  show Ends E _ (if _ then _ else _)
  rw [hxs.length_eq, hys.length_eq]
  by_cases hlen : xs.length = ys.length
  · rw [if_pos hlen]
    simpa using itemsEqual_denotes hxs hys hlen each
  · rw [if_neg hlen]
    have hne : xs ≠ ys := fun he => hlen (congrArg List.length he)
    simp only [Datum.tuple.injEq, hne, decide_false]
    exact rfl

/-- A tuple does not equal what is no tuple. -/
theorem tupleEqual_other (hx : h.Denotes a x) (hy : h.Denotes b y)
    (other : x.items? = Option.none ∨ y.items? = Option.none) : h.tupleEqual equal a b = .ok (.ok false) := by
  obtain ⟨_, found, rel⟩ := hx.items?
  obtain ⟨_, found', rel'⟩ := hy.items?
  unfold tupleEqual
  rw [found, found']
  rcases other with hn | hn
  · rw [hn] at rel
    cases rel
    rfl
  · rw [hn] at rel'
    cases rel'
    generalize x.items? = items? at rel
    cases rel <;> rfl

end Heap

/-! ### Comparisons -/

/-- The native stack holds fewer calls than either tree has levels. -/
def Overflows (n : Nat) (x y : Datum) (f : Fault) : Prop := f = .stackOverflow ∧ n < x.height ∧ n < y.height

section Comparisons

variable {h : Heap κ} {a b : Ref} {x y : Datum} (host : Host κ)

theorem consulting_eq (h : Heap κ) (n : Nat) : consulting host h n = consult host h (nested host h n) := by
  cases n <;> rfl

/-- A comparison comes to that of data, if its handler does. -/
theorem consulting_compare (wf : h.WellFormed) (hx : h.Denotes a x) (hy : h.Denotes b y) (op : CompareOp) {n : Nat}
    (handler : ∀ f, x.comparison? op = some f ∨ y.comparison? op = some f →
      Ends E (· = f.comparison x y) (Handler.compare host h (nested host h n) (.builtin f) a b)) :
    Ends E (· = x.compare op y) (consulting host h n (.compare op a b)) := by
  rw [consulting_eq]
  unfold consult
  dsimp only
  rw [hx.typeOf wf, hy.typeOf wf]
  simp only [bind, Except.bind, Datum.descriptor_comparison?, ← Option.map_or]
  unfold Datum.compare
  rw [Datum.offered_pair]
  cases found : (x.comparison? op).or (y.comparison? op) with
  | some f => exact handler f ((Option.or_eq_some_iff.mp found).imp id And.right)
  | none =>
    rw [← x.descriptor_name (κ := κ), ← y.descriptor_name (κ := κ)]
    exact rfl

/-- A handler comes to its function of data, if the comparison of items does. -/
theorem Handler.compare_step {inner : Consult} (wf : h.WellFormed) {op : CompareOp} {f : Builtin .comparison}
    (hx : h.Denotes a x) (hy : h.Denotes b y) (offers : x.comparison? op = some f ∨ y.comparison? op = some f)
    (items : ∀ xs ys, x = .tuple xs → y = .tuple ys → ∀ a b x' y', x' ∈ xs → y' ∈ ys → h.Denotes a x' →
      h.Denotes b y' → a ≠ b → Ends E (· = .ok (decide (x' = y'))) (inner (.compare .equal a b))) :
    Ends E (· = f.comparison x y) (Handler.compare host h inner (.builtin f) a b) := by
  cases f with
  | boolEqual => exact Ends.bindOk (Heap.boolEqual_denotes hx hy offers) rfl
  | shortEqual => exact Ends.bindOk (Heap.shortEqual_denotes hx hy offers) rfl
  | shortLessOrEqual =>
    show Ends E _ (h.shortLessOrEqual a b)
    rw [Heap.shortLessOrEqual_denotes wf hx hy]
    exact rfl
  | tupleEqual =>
    rcases Datum.items?_eq offers with ⟨xs, ys, rfl, rfl⟩ | ⟨other, hne⟩
    · exact Heap.tupleEqual_denotes hx hy (items xs ys rfl rfl)
    · show Ends E (· = .ok (decide (x = y))) (h.tupleEqual _ a b)
      rw [Heap.tupleEqual_other hx hy other, decide_eq_false hne]
      exact rfl

/-- **A comparison of references is one of data**, if the native stack holds as many calls
as one of the trees has levels. -/
theorem Handler.compare_denotes (wf : h.WellFormed) (lone : ∀ a b, h.Denotes a .none → h.Denotes b .none → a = b)
    (n : Nat) :
    ∀ {op : CompareOp} {f : Builtin .comparison} {a b : Ref} {x y : Datum}, h.Denotes a x → h.Denotes b y →
      x.comparison? op = some f ∨ y.comparison? op = some f →
      Ends (Overflows n x y) (· = f.comparison x y) (Handler.compare host h (nested host h n) (.builtin f) a b) := by
  -- on the calls to spare: items are compared one call further in, and their trees have a level less
  induction n with
  | zero =>
    intro op f a b x y hx hy offers
    refine Handler.compare_step host wf hx hy offers ?_
    rintro xs ys rfl rfl a b x' y' hx' hy' - - -
    exact ⟨rfl, Nat.succ_pos _, Nat.succ_pos _⟩
  | succ n ih =>
    intro op f a b x y hx hy offers
    refine Handler.compare_step host wf hx hy offers ?_
    rintro xs ys rfl rfl a b x' y' hx' hy' hdx hdy hab
    have answer : x'.compare .equal y' = .ok (decide (x' = y')) := by
      rw [Datum.compare_equal, if_neg]
      rintro ⟨rfl, rfl⟩
      exact hab (lone a b hdx hdy)
    have inner := consulting_compare host wf hdx hdy .equal fun f offers => ih hdx hdy offers
    rw [answer] at inner
    refine inner.weaken ?_
    rintro fault ⟨hfault, hlt, hlt'⟩
    have := Datum.height_lt hx'
    have := Datum.height_lt hy'
    exact ⟨hfault, by omega, by omega⟩

/-- The operands are given back after the answer. -/
theorem compareConsuming_ends (wf : h.WellFormed) (lone : ∀ a b, h.Denotes a .none → h.Denotes b .none → a = b)
    (n : Nat) (hx : h.Denotes a x) (hy : h.Denotes b y) (op : CompareOp) :
    Ends (Overflows n x y) (fun p => p.1 = x.compare op y) (compareConsuming host n op a b h) := by
  have operands : List.Forall₂ h.Denotes [a, b] [x, y] := .cons hx (.cons hy .nil)
  refine Ends.bind (Heap.resolve_denotes (Datum.descriptor_comparison? op) wf op.symbol operands)
    fun answer ha => ?_
  unfold Datum.compare
  rcases ha.cases with ⟨⟨handler, event⟩, f, rfl, hf, rfl⟩ | ⟨e, rfl, he⟩
  · rw [hf]
    have offers : x.comparison? op = some f ∨ y.comparison? op = some f := by
      simpa using Datum.offered_ok hf
    have plain : Handler.compare host (h.emit event) (nested host (h.emit event) n) (.builtin f) a b =
        Handler.compare host h (nested host h n) (.builtin f) a b :=
      compare_plain host n (.builtin f) a b h h.ledger (h.tracer.observe event)
    dsimp only
    rw [plain]
    exact Ends.bind (Handler.compare_denotes host wf lone n hx hy offers) fun answer ha => ha
  · rw [he]
    exact rfl

end Comparisons

/-! ### Truth and length -/

section Queries

variable {h : Heap κ} {a : Ref} {x : Datum} (host : Host κ)

theorem Heap.Denotes.tupleLength {xs : List Datum} (hx : h.Denotes a (.tuple xs)) :
    h.tupleLength a = .ok xs.length := by
  obtain ⟨_, found, ⟨hxs⟩⟩ := hx.items?
  unfold Heap.tupleLength
  rw [found, ← hxs.length_eq]
  rfl

theorem consulting_isTrue (wf : h.WellFormed) (hx : h.Denotes a x) (n : Nat) :
    consulting host h n (.isTrue a) = .ok x.truth := by
  rw [consulting_eq]
  unfold consult
  dsimp only
  rw [hx.typeOf wf]
  cases x with
  | none => rfl
  | bool v =>
    show h.boolTruth a = _
    unfold Heap.boolTruth
    rw [hx.bool?]
    rfl
  | short v =>
    show h.shortTruth a = _
    unfold Heap.shortTruth
    rw [hx.short?]
    rfl
  | tuple xs =>
    show (do return decide (0 < (← h.tupleLength a)) : Except Fault Bool) = _
    rw [hx.tupleLength]
    rfl

theorem consulting_length (wf : h.WellFormed) (hx : h.Denotes a x) (n : Nat) :
    consulting host h n (.length a) = .ok x.length := by
  rw [consulting_eq]
  unfold consult
  dsimp only
  rw [hx.typeOf wf]
  cases x with
  | tuple xs =>
    show (do return .ok (← h.tupleLength a) : Except Fault (Except RunError Nat)) = _
    rw [hx.tupleLength]
    rfl
  | none | bool | short => rfl

end Queries

/-! ### Operators of a run -/

/-- There is one `None`, the interned one. -/
theorem Reached.lone {host : Host κ} {c : Config} {h : Heap κ} (reached : Reached host (.ofConfig c) h) :
    ∀ a b, h.Denotes a .none → h.Denotes b .none → a = b := by
  obtain ⟨acts, t, spares⟩ := reached.evolves_sparing
  have sole := t.sole (Heap.WellFormed.ofConfig c) spares (Heap.sole_ofConfig c)
  have only : ∀ a, h.Denotes a .none → a = Interned.none := by
    intro a ha
    obtain ⟨o, live, -, holds⟩ := Heap.denotes_iff.mp ha
    generalize hp : o.payload = payload at holds
    cases holds
    exact sole a o _ live (by rw [hp]; rfl)
  exact fun a b ha hb => (only a ha).trans (only b hb).symm

theorem Run.ready {host : Host κ} (disciplined : host.Disciplined) {c : Config} {h : Heap κ} {held : Multiset Ref}
    (run : Run host 0 (.ofConfig c) 0 h held) (roomy : h.ledger.tracker.Roomy) : h.Ready held :=
  ⟨run.balanced disciplined (Heap.balanced_ofConfig c), roomy, run.reached.lone⟩

namespace Host

variable {h : Heap κ} {held : Multiset Ref} {a b c : Ref} {x y z : Datum} (host : Host κ)

theorem unary_means (ready : h.Ready held) (supplied : h.Supplies held [a] [x]) (op : UnaryOp) :
    Ends E (Means (x.unary op)) (host.perform (.unary op a) h) := by
  obtain ⟨n, inner, hstep⟩ := host.perform_eq_step
  rw [hstep]
  exact ready.dispatch_means supplied (Datum.descriptor_unary? op) op.symbol
    fun f g ready supplied => Handler.unary_means ready supplied f

theorem binary_means (ready : h.Ready held) (supplied : h.Supplies held [a, b] [x, y]) (op : BinaryOp) :
    Ends E (Means (x.binary op y)) (host.perform (.binary op a b) h) := by
  obtain ⟨n, inner, hstep⟩ := host.perform_eq_step
  rw [hstep]
  exact ready.dispatch_means supplied (Datum.descriptor_binary? op) op.symbol
    fun f g ready supplied => Handler.binary_means ready supplied f

theorem power_means (ready : h.Ready held) (supplied : h.Supplies held [a, b, c] [x, y, z]) :
    Ends E (Means (x.power y z)) (host.perform (.power a b c) h) := by
  obtain ⟨n, inner, hstep⟩ := host.perform_eq_step
  rw [hstep]
  exact ready.dispatch_means supplied Datum.descriptor_power? powerSymbol
    fun f g ready supplied => Handler.ternary_means ready supplied f

theorem item_means (ready : h.Ready held) (hx : h.Denotes a x) (index : Int) :
    Ends E (Means (x.item "tuple item" index)) (host.perform (.item a index) h) := by
  obtain ⟨n, inner, hstep⟩ := host.perform_eq_step
  rw [hstep]
  exact (Heap.item_makes ready.wellFormed hx _ index).mono fun _ made => made.1

theorem perform_compare (op : CompareOp) (a b : Ref) :
    host.perform (.compare op a b) = compareConsuming host host.frames op a b := by
  unfold Host.perform
  cases host.frames <;> rfl

theorem compare_ends (ready : h.Ready held) (hx : h.Denotes a x) (hy : h.Denotes b y) (op : CompareOp) :
    Ends (Overflows host.frames x y) (fun p => p.1 = x.compare op y) (host.perform (.compare op a b) h) := by
  rw [host.perform_compare]
  exact compareConsuming_ends host ready.wellFormed ready.lone host.frames hx hy op

theorem consult_compare_ends (ready : h.Ready held) (hx : h.Denotes a x) (hy : h.Denotes b y) (op : CompareOp) :
    Ends (Overflows host.frames x y) (· = x.compare op y) (host.consult h (.compare op a b)) :=
  consulting_compare host ready.wellFormed hx hy op
    fun _ offers => Handler.compare_denotes host ready.wellFormed ready.lone _ hx hy offers

end Host

/-! ### Two heaps -/

/-- Two that correspond to one correspond to each other. -/
theorem Matches.common {ε α β γ : Type} {R : α → γ → Prop} {R' : β → γ → Prop} {x : Except ε α} {y : Except ε β}
    {z : Except ε γ} (hx : Matches R x z) (hy : Matches R' y z) : Matches (fun a b => ∃ c, R a c ∧ R' b c) x y := by
  rcases hx.cases with ⟨a, c, rfl, rfl, hR⟩ | ⟨e, rfl, rfl⟩
  · cases y with
    | ok b => exact ⟨c, hR, hy⟩
    | error e => exact hy.elim
  · cases y with
    | ok b => exact hy.elim
    | error e' => exact Eq.symm hy

variable {κ' : Role → Type}

/-- Both computations end, with the same error or with references that denote the same datum. -/
def Concur (m : Except Fault (Except RunError Ref × Heap κ)) (m' : Except Fault (Except RunError Ref × Heap κ')) :
    Prop :=
  ∃ p p', m = .ok p ∧ m' = .ok p' ∧ Matches (fun r r' => ∃ x, p.2.Denotes r x ∧ p'.2.Denotes r' x) p.1 p'.1

theorem Concur.of_means {m : Except Fault (Except RunError Ref × Heap κ)}
    {m' : Except Fault (Except RunError Ref × Heap κ')} {expected : Except RunError Datum}
    (hm : Ends (fun _ => False) (Means expected) m) (hm' : Ends (fun _ => False) (Means expected) m') :
    Concur m m' := by
  cases m with
  | error f => exact hm.elim
  | ok p =>
    cases m' with
    | error f => exact hm'.elim
    | ok p' =>
      have means : Matches p.2.Denotes p.1 expected := hm
      exact ⟨p, p', rfl, rfl, means.common hm'⟩

/-- **Only values matter to operators.** Take two heaps that runs have reached, with any hosts, configurations and
histories, and with no limit on blocks and bytes. On operands that denote the same data every operator, and taking
an item, ends in both with the same error or with results that denote the same datum; comparisons answer the same,
unless the native stack is too short for both trees; truth, length and the value of a short are the same. -/
theorem operators_by_value {host : Host κ} {host' : Host κ'} (disciplined : host.Disciplined)
    (disciplined' : host'.Disciplined) {c c' : Config} {h : Heap κ} {h' : Heap κ'} {held held' : Multiset Ref}
    (run : Run host 0 (.ofConfig c) 0 h held) (run' : Run host' 0 (.ofConfig c') 0 h' held')
    (roomy : h.ledger.tracker.Roomy) (roomy' : h'.ledger.tracker.Roomy) :
    (∀ op a a' x, h.Supplies held [a] [x] → h'.Supplies held' [a'] [x] →
      Concur (host.perform (.unary op a) h) (host'.perform (.unary op a') h')) ∧
    (∀ op a b a' b' x y, h.Supplies held [a, b] [x, y] → h'.Supplies held' [a', b'] [x, y] →
      Concur (host.perform (.binary op a b) h) (host'.perform (.binary op a' b') h')) ∧
    (∀ a b c a' b' c' x y z, h.Supplies held [a, b, c] [x, y, z] → h'.Supplies held' [a', b', c'] [x, y, z] →
      Concur (host.perform (.power a b c) h) (host'.perform (.power a' b' c') h')) ∧
    (∀ op a b a' b' x y, h.Supplies held [a, b] [x, y] → h'.Supplies held' [a', b'] [x, y] → ∃ answer,
      Ends (Overflows host.frames x y) (fun p => p.1 = answer) (host.perform (.compare op a b) h) ∧
      Ends (Overflows host'.frames x y) (fun p => p.1 = answer) (host'.perform (.compare op a' b') h')) ∧
    (∀ op a b a' b' x y, h.Denotes a x → h.Denotes b y → h'.Denotes a' x → h'.Denotes b' y → ∃ answer,
      Ends (Overflows host.frames x y) (· = answer) (host.consult h (.compare op a b)) ∧
      Ends (Overflows host'.frames x y) (· = answer) (host'.consult h' (.compare op a' b'))) ∧
    ∀ a a' x, h.Denotes a x → h'.Denotes a' x →
      (∃ truth, host.consult h (.isTrue a) = .ok truth ∧ host'.consult h' (.isTrue a') = .ok truth) ∧
      (∃ length, host.consult h (.length a) = .ok length ∧ host'.consult h' (.length a') = .ok length) ∧
      (∃ value, h.shortValue "short" a = .ok value ∧ h'.shortValue "short" a' = .ok value) ∧
      ∀ index, Concur (host.perform (.item a index) h) (host'.perform (.item a' index) h') := by
  have ready := run.ready disciplined roomy
  have ready' := run'.ready disciplined' roomy'
  refine ⟨fun op a a' x hx hx' => ?_, fun op a b a' b' x y hxy hxy' => ?_, fun a b c a' b' c' x y z hxyz hxyz' => ?_,
    fun op a b a' b' x y hxy hxy' => ?_, fun op a b a' b' x y hx hy hx' hy' => ?_, fun a a' x hx hx' => ?_⟩
  · exact .of_means (host.unary_means ready hx op) (host'.unary_means ready' hx' op)
  · exact .of_means (host.binary_means ready hxy op) (host'.binary_means ready' hxy' op)
  · exact .of_means (host.power_means ready hxyz) (host'.power_means ready' hxyz')
  · obtain ⟨hx, hy⟩ := hxy.pair
    obtain ⟨hx', hy'⟩ := hxy'.pair
    exact ⟨x.compare op y, host.compare_ends ready hx hy op, host'.compare_ends ready' hx' hy' op⟩
  · exact ⟨x.compare op y, host.consult_compare_ends ready hx hy op, host'.consult_compare_ends ready' hx' hy' op⟩
  · refine ⟨⟨x.truth, ?_, ?_⟩, ⟨x.length, ?_, ?_⟩, ⟨x.asShort "short", ?_, ?_⟩, fun index => ?_⟩
    · exact consulting_isTrue host ready.wellFormed hx _
    · exact consulting_isTrue host' ready'.wellFormed hx' _
    · exact consulting_length host ready.wellFormed hx _
    · exact consulting_length host' ready'.wellFormed hx' _
    · exact hx.shortValue ready.wellFormed _
    · exact hx'.shortValue ready'.wellFormed _
    · exact .of_means (host.item_means ready hx index) (host'.item_means ready' hx' index)

namespace Stock

/-- The short that the tuples hold is interned. -/
def internedConfig : Config := { sampleConfig with shortRange := ⟨7, 8⟩ }

/-- What two tuples are built from: `first` and `last` are the shorts that they take over. -/
def tupling (first last : Ref) : List (Request Name) := [.short 7, .short 7, .tuple [first], .tuple [last]]

end Stock

/-- Two equal tuples, of two objects in one heap and of one interned object in the other,
are joined to the same and compare alike. -/
theorem operators_by_value_shared : ∃ h h' : Heap Stock.Name,
    Run (Stock.host 8) 0 (.ofConfig Stock.sampleConfig) 0 h {⟨5⟩, ⟨6⟩} ∧
    Run (Stock.host 1) 0 (.ofConfig Stock.internedConfig) 0 h' {⟨4⟩, ⟨5⟩} ∧
    h.Supplies {⟨5⟩, ⟨6⟩} [⟨5⟩, ⟨6⟩] [.tuple [.short 7], .tuple [.short 7]] ∧
    h'.Supplies {⟨4⟩, ⟨5⟩} [⟨4⟩, ⟨5⟩] [.tuple [.short 7], .tuple [.short 7]] ∧
    Concur ((Stock.host 8).perform (.binary .concat ⟨5⟩ ⟨6⟩) h) ((Stock.host 1).perform (.binary .concat ⟨4⟩ ⟨5⟩) h') ∧
    ∃ answer, Ends (fun _ => False) (fun p => p.1 = answer) ((Stock.host 8).perform (.compare .equal ⟨5⟩ ⟨6⟩) h) ∧
      Ends (fun _ => False) (fun p => p.1 = answer) ((Stock.host 1).perform (.compare .equal ⟨4⟩ ⟨5⟩) h') := by
  have hplay : ((Stock.host 8).play 0 (Stock.tupling ⟨3⟩ ⟨4⟩) (.ofConfig Stock.sampleConfig) 0).map
      (fun p => (p.2, p.1.ledger.tracker, [3, 4, 5, 6].map fun i => p.1.object? ⟨i⟩)) =
      some ({⟨5⟩, ⟨6⟩}, .unmetered, [
        some ⟨1, .short, 0, 16, false, .short 7⟩, some ⟨1, .short, 0, 16, false, .short 7⟩,
        some ⟨1, .tuple, 1, 32, false, .tuple [⟨3⟩]⟩, some ⟨1, .tuple, 1, 32, false, .tuple [⟨4⟩]⟩]) := by
    decide +kernel
  have hplay' : ((Stock.host 1).play 0 (Stock.tupling ⟨3⟩ ⟨3⟩) (.ofConfig Stock.internedConfig) 0).map
      (fun p => (p.2, p.1.ledger.tracker, [3, 4, 5].map fun i => p.1.object? ⟨i⟩)) =
      some ({⟨4⟩, ⟨5⟩}, .unmetered, [
        some ⟨3, .short, 0, 16, true, .short 7⟩,
        some ⟨1, .tuple, 1, 32, false, .tuple [⟨3⟩]⟩, some ⟨1, .tuple, 1, 32, false, .tuple [⟨3⟩]⟩]) := by
    decide +kernel
  obtain ⟨h, run, seen⟩ := Run.of_play
    (fun h => (h.ledger.tracker, [3, 4, 5, 6].map fun i => h.object? ⟨i⟩)) (Multiset.zero_le _) hplay
  obtain ⟨h', run', seen'⟩ := Run.of_play
    (fun h => (h.ledger.tracker, [3, 4, 5].map fun i => h.object? ⟨i⟩)) (Multiset.zero_le _) hplay'
  simp only [List.map_cons, List.map_nil, Prod.mk.injEq, List.cons.injEq, and_true] at seen seen'
  obtain ⟨tracker, three, four, five, six⟩ := seen
  obtain ⟨tracker', three', four', five'⟩ := seen'
  have lone : ∀ {g : Heap Stock.Name} {r a : Ref} {n : Nat} {immortal : Bool},
      g.object? a = some ⟨n, .short, 0, 16, immortal, .short 7⟩ →
      g.object? r = some ⟨1, .tuple, 1, 32, false, .tuple [a]⟩ → g.Denotes r (.tuple [.short 7]) := by
    intro g r a n immortal item tuple
    have seven : g.Denotes a (.short 7) := Heap.denotes_iff.mpr ⟨_, item, rfl, .short 7⟩
    exact Heap.denotes_iff.mpr ⟨_, tuple, rfl, .tuple (.cons seven .nil)⟩
  have supplied : h.Supplies {⟨5⟩, ⟨6⟩} [⟨5⟩, ⟨6⟩] [.tuple [.short 7], .tuple [.short 7]] :=
    ⟨le_rfl, .cons (lone three five) (.cons (lone four six) .nil)⟩
  have supplied' : h'.Supplies {⟨4⟩, ⟨5⟩} [⟨4⟩, ⟨5⟩] [.tuple [.short 7], .tuple [.short 7]] :=
    ⟨le_rfl, .cons (lone three' four') (.cons (lone three' five') .nil)⟩
  obtain ⟨-, binary, -, compare, -⟩ := operators_by_value (Stock.host_disciplined 8) (Stock.host_disciplined 1) run run'
    (tracker ▸ trivial) (tracker' ▸ trivial)
  obtain ⟨answer, ends, ends'⟩ := compare .equal _ _ _ _ _ _ supplied supplied'
  refine ⟨h, h', run, run', supplied, supplied', binary .concat _ _ _ _ _ _ supplied supplied', answer, ?_, ?_⟩
  · exact ends.weaken fun f overflows => absurd overflows.2.1 (by decide)
  · exact ends'.weaken fun f overflows => absurd overflows.2.1 (by decide)

end CountedHeap
