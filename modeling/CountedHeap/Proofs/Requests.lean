/-
# Requests keep the books

A request that consumes only what is held, and looks only at what is held, stops
at a limit of the machine or turns what it consumes into what its answer brings.
Operators, the code of a disciplined host, and the requests that such code makes
are all part of it.

Queries come first. They change nothing, so all there is to show is that they meet
no dead object: a query about live objects asks further only about these objects
and their items. Requests follow, by induction on the depth of the native stack.
Last comes what handlers forget, which is nothing if they settle what they hold.

Key definitions: `Heap.Knows`, `Heap.Answers`, `Balances`.
Key theorems: `consulting_answers`, `perform_balances`, `Host.Settled.forgets_eq_zero`.
-/
import CountedHeap.Proofs.Evolution
import CountedHeap.Proofs.Trades
import CountedHeap.Proofs.Uniform

namespace CountedHeap

variable {κ : Role → Type} {α β : Type}

/-! ### Queries -/

/-- All of these references name live objects. -/
def Heap.Knows (h : Heap κ) (refs : List Ref) : Prop := ∀ a ∈ refs, ∃ o, h.object? a = some o

/-- Queries about live objects are answered, unless the stack is too small. -/
def Heap.Answers (h : Heap κ) (inner : Consult) : Prop :=
  ∀ q, h.Knows q.refs → Ends Fault.Limit (fun _ => True) (inner q)

namespace Heap

variable {h : Heap κ} {held : Multiset Ref} {a b : Ref}

theorem shortValue?_ends (live : ∃ o, h.object? a = some o) :
    Ends Fault.Limit (fun _ => True) (h.shortValue? a) := by
  refine Ends.bind (get_ends live) fun o _ => ?_
  cases o.payload <;> trivial

theorem boolValue?_ends (live : ∃ o, h.object? a = some o) :
    Ends Fault.Limit (fun _ => True) (h.boolValue? a) := by
  refine Ends.bind (get_ends live) fun o _ => ?_
  cases o.payload <;> trivial

theorem shortEqual_ends (ha : ∃ o, h.object? a = some o) (hb : ∃ o, h.object? b = some o) :
    Ends Fault.Limit (fun _ => True) (h.shortEqual a b) :=
  (shortValue?_ends ha).bind fun _ _ => (shortValue?_ends hb).bind fun _ _ => trivial

theorem boolEqual_ends (ha : ∃ o, h.object? a = some o) (hb : ∃ o, h.object? b = some o) :
    Ends Fault.Limit (fun _ => True) (h.boolEqual a b) :=
  (boolValue?_ends ha).bind fun _ _ => (boolValue?_ends hb).bind fun _ _ => trivial

/-- The items of what may be a tuple are live. -/
theorem Balanced.tupleItems?_ends (bal : h.Balanced held) (live : ∃ o, h.object? a = some o) :
    Ends Fault.Limit (fun x => ∀ items, x = some items → h.Knows items) (h.tupleItems? a) := by
  refine Ends.bind (get_ends live) fun o ho => ?_
  cases hp : o.payload with
  | tuple items =>
    intro items' he r hr
    cases he
    exact bal.item_live ho (by rwa [hp])
  | none | bool | short | host => exact fun items he => by cases he

theorem itemsEqual_ends {equal : Ref → Ref → Except Fault (Except RunError Bool)} :
    ∀ {xs ys : List Ref}, (∀ x ∈ xs, ∀ y ∈ ys, Ends Fault.Limit (fun _ => True) (equal x y)) →
      Ends Fault.Limit (fun _ => True) (itemsEqual equal xs ys)
  | x :: xs, y :: ys, he => by
    have ih : Ends Fault.Limit (fun _ => True) (itemsEqual equal xs ys) :=
      itemsEqual_ends fun x hx y hy => he x (List.mem_cons_of_mem _ hx) y (List.mem_cons_of_mem _ hy)
    rw [itemsEqual]
    split
    · exact ih
    · refine Ends.bind (he x List.mem_cons_self y List.mem_cons_self) fun answer _ => ?_
      split
      · exact ih
      · trivial
  | [], _, _ => trivial
  | _ :: _, [], _ => trivial

theorem Balanced.tupleEqual_ends (bal : h.Balanced held) (known : h.Knows [a, b])
    {equal : Ref → Ref → Except Fault (Except RunError Bool)}
    (he : ∀ x y, h.Knows [x, y] → Ends Fault.Limit (fun _ => True) (equal x y)) :
    Ends Fault.Limit (fun _ => True) (h.tupleEqual equal a b) := by
  refine Ends.bind (bal.tupleItems?_ends (known a (by simp))) fun xs hxs => ?_
  refine Ends.bind (bal.tupleItems?_ends (known b (by simp))) fun ys hys => ?_
  cases xs with
  | none => trivial
  | some xs =>
    cases ys with
    | none => trivial
    | some ys =>
      dsimp only
      split
      · refine itemsEqual_ends fun x hx y hy => he x y ?_
        rintro c hc
        rcases List.mem_cons.mp hc with rfl | hc
        · exact hxs xs rfl c hx
        · rw [List.mem_singleton.mp hc]
          exact hys ys rfl y hy
      · trivial

end Heap

/-- Code that only looks at live objects is answered. -/
theorem Looks.run_ends {h : Heap κ} {inner : Consult} (hi : h.Answers inner) {refs : List Ref} (known : h.Knows refs)
    {code : Inspection α} (hc : Looks refs code) : Ends Fault.Limit (fun _ => True) (code.run inner) := by
  induction code with
  | done a => trivial
  | call q next ih =>
    obtain ⟨hq, hx⟩ := hc
    exact Ends.bind (hi q fun a ha => known a (hq ha)) fun x _ => ih x (hx x)

section Consult

variable {host : Host κ} (disciplined : host.Disciplined) {h : Heap κ} {inner : Consult} (hi : h.Answers inner)
include disciplined hi

theorem Handler.truth_ends (f : Handler κ .truth) {a : Ref} (live : ∃ o, h.object? a = some o) :
    Ends Fault.Limit (fun _ => True) (f.truth host h inner a) := by
  cases f with
  | builtin f =>
    cases f with
    | noneTruth => trivial
    | boolTruth => exact Ends.bind (Heap.boolValue?_ends live) fun _ _ => trivial
    | shortTruth => exact Ends.bind (Heap.shortValue?_ends live) fun _ _ => trivial
  | host name =>
    exact (disciplined.truth name a).run_ends hi (List.forall_mem_singleton.mpr live)

variable {held : Multiset Ref} (bal : h.Balanced held)
include bal

theorem Handler.length_ends (f : Handler κ .length) {a : Ref} (live : ∃ o, h.object? a = some o) :
    Ends Fault.Limit (fun _ => True) (f.length host h inner a) := by
  cases f with
  | builtin f =>
    cases f with
    | tupleLength => exact Ends.bind (bal.tupleItems?_ends live) fun _ _ => trivial
  | host name =>
    exact (disciplined.length name a).run_ends hi (List.forall_mem_singleton.mpr live)

theorem Handler.compare_ends (f : Handler κ .comparison) {a b : Ref} (known : h.Knows [a, b]) :
    Ends Fault.Limit (fun _ => True) (f.compare host h inner a b) := by
  have ha := known a (by simp)
  have hb := known b (by simp)
  cases f with
  | builtin f =>
    cases f with
    | boolEqual => exact Ends.bind (Heap.boolEqual_ends ha hb) fun _ _ => trivial
    | shortEqual => exact Ends.bind (Heap.shortEqual_ends ha hb) fun _ _ => trivial
    | shortLessOrEqual =>
      exact Ends.readBind (bal.wellFormed.shortValue_ends _ ha) (fun _ _ =>
        Ends.readBind (bal.wellFormed.shortValue_ends _ hb) (fun _ _ => trivial) fun _ _ => trivial) fun _ _ => trivial
    | tupleEqual => exact bal.tupleEqual_ends known fun x y hxy => hi (.compare .equal x y) hxy
  | host name => exact (disciplined.comparison name a b).run_ends hi known

theorem consult_answers : h.Answers (consult host h inner) := by
  intro q known
  cases q with
  | object a => exact (Heap.get_ends (known a (by simp [Query.refs]))).mono fun _ _ => trivial
  | typeName a => exact bal.wellFormed.typeName_ends (known a (by simp [Query.refs]))
  | isTrue a =>
    have live := known a (by simp [Query.refs])
    refine Ends.bind (bal.wellFormed.typeOf_ends live) fun d _ => ?_
    split
    · exact Handler.truth_ends disciplined hi _ live
    · exact Ends.bind (Handler.length_ends disciplined hi bal _ live) fun _ _ => trivial
    · trivial
  | length a =>
    have live := known a (by simp [Query.refs])
    refine Ends.bind (bal.wellFormed.typeOf_ends live) fun d _ => ?_
    split
    · exact Ends.bind (Handler.length_ends disciplined hi bal _ live) fun _ _ => trivial
    · trivial
  | compare op a b =>
    refine Ends.bind (bal.wellFormed.typeOf_ends (known a (by simp [Query.refs]))) fun left _ => ?_
    refine Ends.bind (bal.wellFormed.typeOf_ends (known b (by simp [Query.refs]))) fun right _ => ?_
    split
    · exact Handler.compare_ends disciplined hi bal _ known
    · trivial

end Consult

/-- **Queries about live objects are answered**, to any depth of the native stack. -/
theorem consulting_answers {host : Host κ} (disciplined : host.Disciplined) {h : Heap κ} {held : Multiset Ref}
    (bal : h.Balanced held) : ∀ n, h.Answers (consulting host h n)
  | 0 => consult_answers disciplined (fun _ _ => trivial) bal
  | n + 1 => consult_answers disciplined (consulting_answers disciplined bal n) bal

theorem nested_answers {host : Host κ} (disciplined : host.Disciplined) {h : Heap κ} {held : Multiset Ref}
    (bal : h.Balanced held) : ∀ n, h.Answers (nested host h n)
  | 0 => fun _ _ => trivial
  | n + 1 => consulting_answers disciplined bal n

/-! ### Requests -/

/-- Requests that use what is held keep the books; `lost` is what they forget. -/
def Balances (inner : Perform κ) (lost : Request κ → Heap κ → Multiset Ref) : Prop :=
  ∀ (r : Request κ) (h : Heap κ) (rest : Multiset Ref), h.Balanced (r.consumes + rest) → (∀ a ∈ r.borrows, a ∈ rest) →
    Trades h r.consumes (fun x => r.makes x + lost r h) (inner r h)

section Code

variable {inner : Perform κ} {lost : Request κ → Heap κ → Multiset Ref} (hi : Balances inner lost)
  {left : α → Multiset Ref → Multiset Ref} {last : α → Multiset Ref} {held rest : Multiset Ref} {h : Heap κ}
include hi

/-- Code that uses what it holds keeps the books if its requests do. -/
theorem Uses.run_trades {code : Procedure κ α} (hc : Uses (fun a held => held = last a + left a held) held code)
    (b : h.Balanced (held + rest)) :
    Trades h held (fun a => last a + code.forgets inner lost left held h) (code.run inner h) := by
  induction code generalizing held rest h with
  | done a =>
    have he : held = last a + left a held := hc
    show Deals h held h (last a + left a held)
    rw [← he]
    exact .refl
  | call r next ih =>
    obtain ⟨more, rfl, hb, hx⟩ := hc
    have first : Trades h r.consumes (fun x => r.makes x + lost r h) (inner r h) := by
      refine hi r h (more + rest) (by rwa [← add_assoc]) fun a ha => ?_
      exact Multiset.mem_add.mpr (Or.inl (hb a ha))
    refine Ends.heapBind first.remember fun x g hp => ?_
    obtain ⟨hr, d⟩ := hp
    have hf : (Code.call r next).forgets inner lost left (r.consumes + more) h =
        lost r h + (next x).forgets inner lost left (r.makes x + more) g := by
      rw [Code.forgets, hr, add_comm (r.consumes : Multiset Ref), Multiset.add_sub_cancel_right]
    -- what the request forgot is held beside what the code goes on with
    have hheld : r.makes x + lost r h + more = r.makes x + more + lost r h := add_right_comm _ _ _
    have d' : Deals h (r.consumes + more) g (r.makes x + more + lost r h) := hheld ▸ d.frame more
    have b' := d'.balanced b
    rw [add_assoc] at b'
    have t : Trades g (r.makes x + more + lost r h)
        (fun a => last a + (Code.call r next).forgets inner lost left (r.consumes + more) h)
        ((next x).run inner g) := by
      refine ((ih x (hx x) b').frame (lost r h)).congr fun a => ?_
      rw [hf, add_assoc, add_comm (lost r h)]
    exact Trades.after d' t

/-- A handler of a host that uses what it holds keeps the books. -/
theorem Uses.exec_trades {code : Routine κ Ref} (hc : Uses (outcome 0 ({·}) · ≤ ·) held code.run)
    (b : h.Balanced (held + rest)) :
    Trades h held (fun x => outcome 0 ({·}) x +
      Code.forgets inner lost (fun x held => held - outcome 0 ({·}) x) code.run held h)
      (code.exec inner h) := by
  refine Uses.run_trades hi (hc.mono fun x left hle => ?_) b
  rw [add_comm, Multiset.sub_add_cancel hle]

end Code

namespace Heap

variable {h : Heap κ} {rest : Multiset Ref}

/-- An operator consumes its operands, through its handler or because there is none. -/
theorem dispatch_trades {op : String} {find : Descriptor κ → Option α} {operands : List Ref} {call : α → RunM κ Ref}
    {lost : α → Heap κ → Multiset Ref} (b : h.Balanced (operands + rest))
    (hc : ∀ f g, g.Balanced (operands + rest) → Trades g operands (fun x => outcome 0 ({·}) x + lost f g) (call f g)) :
    Trades h operands (fun x => outcome 0 ({·}) x + h.forgotten op find operands lost)
      (dispatch op find operands call h) := by
  have known : h.Knows operands := fun a ha => b.held_live (Multiset.mem_add.mpr (Or.inl ha))
  refine resolve_bind (fun a ha => b.wellFormed.typeOf_ends (known a ha)) (fun e hr => ?_)
    fun f op' name position hr => ?_
  · unfold forgotten
    rw [hr]
    exact releaseAll_deals b
  · unfold forgotten
    rw [hr]
    have d : Deals h operands (h.emit (.dispatch op' name position)) operands := by
      have d := (Deals.dispatch (h := h) op' name position).frame operands
      rwa [zero_add] at d
    exact Trades.after d (hc f _ (d.balanced b))

end Heap

section Handlers

variable {host : Host κ} (disciplined : host.Disciplined) {inner : Perform κ}
  {lost : Request κ → Heap κ → Multiset Ref} (hi : Balances inner lost) {h : Heap κ} {rest : Multiset Ref}
include disciplined hi

theorem Handler.unary_trades (f : Handler κ .unary) {x : Ref} (b : h.Balanced ([x] + rest)) :
    Trades h [x] (fun y => outcome 0 ({·}) y + f.forgets inner lost (host.unary · x) [x] h)
      (f.unary host inner x h) := by
  cases f with
  | builtin f =>
    refine Trades.congr (?_ : Trades h _ (outcome 0 ({·})) _) fun _ => (add_zero _).symm
    cases f <;> exact Heap.Short.unary_trades b _ _
  | host name => exact (disciplined.unary name x).exec_trades hi b

theorem Handler.binary_trades (f : Handler κ .binary) {x y : Ref} (b : h.Balanced ([x, y] + rest)) :
    Trades h [x, y] (fun z => outcome 0 ({·}) z + f.forgets inner lost (host.binary · x y) [x, y] h)
      (f.binary host inner x y h) := by
  cases f with
  | builtin f =>
    refine Trades.congr (?_ : Trades h _ (outcome 0 ({·})) _) fun _ => (add_zero _).symm
    cases f with
    | shortAdd | shortSubtract | shortMultiply => exact Heap.Short.arithmetic_trades b _ _
    | shortRemainder | shortFloorDivide => exact Heap.Short.division_trades b _ _
    | tupleConcat => exact Heap.Tuple.concat_trades b
    | tupleSubscript => exact Heap.Tuple.subscript_trades b
  | host name => exact (disciplined.binary name x y).exec_trades hi b

theorem Handler.ternary_trades (f : Handler κ .ternary) {x y z : Ref} (b : h.Balanced ([x, y, z] + rest)) :
    Trades h [x, y, z] (fun w => outcome 0 ({·}) w + f.forgets inner lost (host.ternary · x y z) [x, y, z] h)
      (f.ternary host inner x y z h) := by
  cases f with
  | builtin f =>
    refine Trades.congr (?_ : Trades h _ (outcome 0 ({·})) _) fun _ => (add_zero _).symm
    cases f with
    | shortPower => exact Heap.Short.power_trades b
  | host name => exact (disciplined.ternary name x y z).exec_trades hi b

end Handlers

theorem compareConsuming_trades {host : Host κ} (disciplined : host.Disciplined) (n : Nat) (op : CompareOp) {x y : Ref}
    {h : Heap κ} {rest : Multiset Ref} (b : h.Balanced ([x, y] + rest)) :
    Trades h [x, y] (fun _ => 0) (compareConsuming host n op x y h) := by
  have known : h.Knows [x, y] := fun a ha => b.held_live (Multiset.mem_add.mpr (Or.inl ha))
  refine Heap.resolve_bind (fun a ha => b.wellFormed.typeOf_ends (known a ha)) (fun e _ => Heap.releaseAll_deals b)
    fun f op' name position _ => ?_
  have d := Deals.dispatch (h := h) op' name position
  have b' := d.unchanged b
  refine Ends.bind (f.compare_ends disciplined (nested_answers disciplined b' n) b' known) fun answer _ => ?_
  exact Heap.releaseAll_after b d

theorem step_tryRelease (host : Host κ) (n : Nat) (inner : Perform κ) {h : Heap κ} {a : Ref}
    (fits : (h.tryRelease a).2 = none) : step host n inner (.tryRelease a) h = .ok (.ok (), (h.tryRelease a).1) := by
  have he : h.tryRelease a = ((h.tryRelease a).1, none) := Prod.ext rfl fits
  unfold step
  simp only
  rw [he]
  rfl

/-- One request keeps the books if the requests inside it do. -/
theorem step_balances {host : Host κ} (disciplined : host.Disciplined) (n : Nat) {inner : Perform κ}
    {lost : Request κ → Heap κ → Multiset Ref} (hi : Balances inner lost) :
    Balances (step host n inner) (stepForgets host inner lost) := by
  intro r h rest b hb
  have nothing : Trades h r.consumes r.makes (step host n inner r h) → stepForgets host inner lost r h = 0 →
      Trades h r.consumes (fun x => r.makes x + stepForgets host inner lost r h) (step host n inner r h) := by
    intro t hz
    exact t.congr fun x => by rw [hz, add_zero]
  cases r with
  | none =>
    refine nothing (Heap.hit_trades b ?_) rfl
    exact Nat.lt_of_lt_of_le (by decide) (Nat.le_add_right Interned.firstShort _)
  | bool value =>
    refine nothing (Heap.hit_trades b (Nat.lt_of_lt_of_le ?_ (Nat.le_add_right Interned.firstShort _))) rfl
    cases value <;> decide
  | short value => exact nothing (Heap.short_trades b value) rfl
  | allocate type payload => exact nothing (Heap.allocate_trades b type payload) rfl
  | tuple items => exact nothing (Heap.tuple_trades b) rfl
  | item a index =>
    exact nothing (Heap.item_trades b (Multiset.mem_add.mpr (Or.inr (hb a List.mem_cons_self))) _ index) rfl
  | acquire a =>
    obtain ⟨o, live⟩ := b.held_live (Multiset.mem_add.mpr (Or.inr (hb a List.mem_cons_self)))
    exact nothing (Heap.newRef_trades live) rfl
  | release a => exact nothing (Heap.release_deals b) rfl
  | tryRelease a =>
    refine nothing ?_ rfl
    obtain ⟨d, fits⟩ := Heap.tryRelease_deals b
    rw [step_tryRelease host n inner fits]
    exact d
  | unary op a => exact Heap.dispatch_trades b fun f g b' => f.unary_trades disciplined hi b'
  | binary op x y => exact Heap.dispatch_trades b fun f g b' => f.binary_trades disciplined hi b'
  | power x y z => exact Heap.dispatch_trades b fun f g b' => f.ternary_trades disciplined hi b'
  | compare op x y => exact nothing (compareConsuming_trades disciplined n op b) rfl
  | fib a => exact Uses.run_trades hi ((Routine.fibonacci_settles a).mono fun x left he => he.trans (add_zero _).symm) b
  | register d =>
    refine nothing (Ends.bind (Ends.self fun f hf => ?_) fun p hp => ?_) rfl
    · unfold Registry.register at hf
      split at hf <;> cases hf
      trivial
    · exact .single (Change.register hp) fun _ => Act.noConfusion
  | enterRecursion =>
    refine nothing ?_ rfl
    unfold step Heap.enterRecursion
    simp only
    cases h.ledger.tracker.checkDepth h.depth with
    | ok => exact .setDepth (h.depth + 1)
    | error e => exact .refl
  | leaveRecursion => exact nothing (Deals.setDepth (h.depth - 1)) rfl
  | inspect q =>
    refine nothing (Ends.bind (consulting_answers disciplined b n q fun a ha => ?_) fun _ _ => .refl) rfl
    exact b.held_live (Multiset.mem_add.mpr (Or.inr (hb a ha)))

/-- **A request that uses what is held keeps the books.** -/
theorem perform_balances {host : Host κ} (disciplined : host.Disciplined) :
    ∀ n, Balances (perform host n) (performForgets host n)
  | 0 => step_balances disciplined 0 fun _ _ _ _ _ => trivial
  | n + 1 => step_balances disciplined (n + 1) (perform_balances disciplined n)

/-! ### Handlers that settle forget nothing -/

theorem Heap.forgotten_eq_zero {lost : α → Heap κ → Multiset Ref} (none : ∀ f h, lost f h = 0) (h : Heap κ)
    (op : String) (find : Descriptor κ → Option α) (operands : List Ref) : h.forgotten op find operands lost = 0 := by
  unfold forgotten
  split
  · exact none _ _
  · rfl

section Forgets

variable {inner : Perform κ} {lost : Request κ → Heap κ → Multiset Ref} (none : ∀ r h, lost r h = 0)
include none

/-- Code forgets nothing if it leaves nothing and its requests forget nothing. -/
theorem Uses.forgets_eq_zero {left : α → Multiset Ref → Multiset Ref} {code : Procedure κ α} {held : Multiset Ref}
    (hc : Uses (fun a held => left a held = 0) held code) (h : Heap κ) : code.forgets inner lost left held h = 0 := by
  induction code generalizing held h with
  | done a => exact hc
  | call r next ih =>
    obtain ⟨rest, rfl, -, hx⟩ := hc
    rw [Code.forgets]
    split
    · rename_i x g _
      rw [none, zero_add, add_comm (r.consumes : Multiset Ref), Multiset.add_sub_cancel_right]
      exact ih x (hx x) g
    · rfl

theorem Handler.forgets_eq_zero {role : Role} {code : κ role → Routine κ Ref} {operands : List Ref}
    (settles : ∀ name, Settles (outcome 0 ({·})) operands (code name).run) (f : Handler κ role) (h : Heap κ) :
    f.forgets inner lost code operands h = 0 := by
  cases f with
  | builtin => rfl
  | host name =>
    refine Uses.forgets_eq_zero none ((settles name).mono fun x left he => ?_) h
    rw [he]
    exact (Multiset.eq_sub_of_add_eq (zero_add _)).symm

end Forgets

namespace Host.Settled

variable {host : Host κ} (settled : host.Settled)
include settled

theorem stepForgets_eq_zero {inner : Perform κ} {lost : Request κ → Heap κ → Multiset Ref}
    (none : ∀ r h, lost r h = 0) (r : Request κ) (h : Heap κ) : stepForgets host inner lost r h = 0 := by
  cases r with
  | unary op a => exact Heap.forgotten_eq_zero (Handler.forgets_eq_zero none (settled.unary · a)) h _ _ _
  | binary op a b => exact Heap.forgotten_eq_zero (Handler.forgets_eq_zero none (settled.binary · a b)) h _ _ _
  | power a b c => exact Heap.forgotten_eq_zero (Handler.forgets_eq_zero none (settled.ternary · a b c)) h _ _ _
  | fib a => exact Uses.forgets_eq_zero none ((Routine.fibonacci_settles a).mono fun _ _ _ => rfl) h
  | _ => rfl

theorem performForgets_eq_zero : ∀ (n : Nat) (r : Request κ) (h : Heap κ), performForgets host n r h = 0
  | 0 => settled.stepForgets_eq_zero fun _ _ => rfl
  | n + 1 => settled.stepForgets_eq_zero (performForgets_eq_zero n)

/-- **Handlers that settle what they hold forget nothing**, however deep they are called. -/
theorem forgets_eq_zero (r : Request κ) (h : Heap κ) : host.forgets r h = 0 :=
  settled.performForgets_eq_zero host.frames r h

end Host.Settled

end CountedHeap
