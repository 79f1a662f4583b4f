/-
# Working with shorts under any budget

Who holds some shorts can make more of them, share, compare, add and subtract them and
give them back. Whatever takes a block may be refused it. What is shown of each request
on shorts is that it has exchanged references for others and left alone what the heap is
set up with (`Heap.Turns`); that its result, if it has one, is a short of the right value
that nobody else refers to, or an interned one; and that without limits on blocks and
bytes it fails only as it should (`Brings`). So one account of a piece of code says both
what it comes to where there is room and what it leaves behind where there is none.

This is for every host and any native stack: the handlers of shorts are built in, and
they make no requests of their own. Rules for code follow, one for each way of putting
routines together, and the requests on shorts once more as code.

Key definitions: `Setting`, `Heap.Turns`, `Heap.IsFresh`, `Brings`, `Host.Serves`.
Key theorems: `Brings.release`, `Heap.Balanced.binary_brings`, `Routine.bind_ends`,
`Routine.andFinally_ends`, `Routine.recursing_ends`.
-/
import CountedHeap.Proofs.Cascade
import CountedHeap.Proofs.Interning
import CountedHeap.Proofs.Twins

namespace CountedHeap

variable {κ : Role → Type} {α β : Type} {E : Fault → Prop}

/-- Who holds an object finds it unchanged but for its count. -/
theorem Deals.object_kept {h g : Heap κ} {given made rest : Multiset Ref} (d : Deals h given g made)
    (b : h.Balanced (given + rest)) {r : Ref} {o : Object} (live : h.object? r = some o) (hr : r ∈ rest) :
    ∃ n, g.object? r = some { o with refcount := n } := by
  refine d.induct (P := fun g => ∃ n, g.object? r = some { o with refcount := n }) b ⟨o.refcount, live⟩ ?_
  rintro h a g held - c b' ⟨n, live⟩
  obtain ⟨m, live'⟩ := c.object_kept b' live (Or.inl (Multiset.mem_add.mpr (Or.inr hr)))
  exact ⟨m, live'⟩

/-! ### What giving back leaves alone -/

namespace Heap

variable {h g : Heap κ}

theorem Framed.trans {h' : Heap κ} (first : h.Framed g) (last : g.Framed h') : h.Framed h' where
  types := last.types.trans first.types
  interned := last.interned.trans first.interned
  depth := last.depth.trans first.depth
  roomy roomy := last.roomy (first.roomy roomy)
  maxDepth := last.maxDepth.trans first.maxDepth

theorem framed_emit (h : Heap κ) (event : Event) : h.Framed (h.emit event) :=
  ⟨rfl, rfl, rfl, fun roomy => roomy, rfl⟩

theorem framed_cascade (h : Heap κ) (first : Option Inconsistency) (pending : List Ref) :
    h.Framed (h.cascade first pending).1 := by
  fun_induction cascade h first pending with
  | case1 h first => exact .refl h
  | case2 h first r rest cause hv ih => exact ih
  | case3 h first r rest o hv ih => exact ((Framed.refl h).setSlot _ _).trans ih
  | case4 h first r rest o hv ih => exact (framed_bury h r o).trans ih

theorem framed_release (h : Heap κ) (r : Ref) : h.Framed (h.release r) := by
  have hc := framed_cascade h .none [r]
  unfold release tryRelease
  split
  · rename_i g he
    rw [he] at hc
    exact hc
  · rename_i g cause he
    rw [he] at hc
    exact hc.trans ⟨rfl, rfl, rfl, fun roomy => roomy, rfl⟩

end Heap

/-- The limit on the depth of recursion, and the depth. -/
structure Setting where
  limit : Option Nat
  depth : Nat

/-- One level deeper. -/
def Setting.deeper (s : Setting) : Setting := { s with depth := s.depth + 1 }

/-- The limit, if it is reached. -/
def Setting.full? (s : Setting) : Option Nat := s.limit.filter (· ≤ s.depth)

def Heap.setting (h : Heap κ) : Setting := ⟨h.ledger.tracker.maxDepth, h.depth⟩

/-! ### Shorts that are held -/

/-- The reference names a short of this value. -/
def Heap.IsShort (h : Heap κ) (r : Ref) (v : Int32) : Prop := ∃ o, h.object? r = some o ∧ o.payload = .short v

/-- A short that nobody else refers to, or an interned one. -/
def Heap.IsFresh (h : Heap κ) (r : Ref) (v : Int32) : Prop :=
  ∃ o, h.object? r = some o ∧ o.payload = .short v ∧ (o.immortal = false → o.refcount = 1)

/-- References have been exchanged for others, and what the heap is set up with is as it was. -/
structure Heap.Turns (h : Heap κ) (given : Multiset Ref) (g : Heap κ) (made : Multiset Ref) : Prop where
  deals : Deals h given g made
  framed : h.Framed g

/-- What was given has been exchanged for a fresh short of a value that is as it should be; or there is an error,
and it is used up. The error is as it should be if no block can be refused. -/
def Brings (h : Heap κ) (given : Multiset Ref) (post : Except RunError Int32 → Prop)
    (p : Except RunError Ref × Heap κ) : Prop :=
  match p.1 with
  | .ok r => h.Turns given p.2 {r} ∧ ∃ v, post (.ok v) ∧ p.2.IsFresh r v
  | .error e => h.Turns given p.2 0 ∧ (h.ledger.tracker.Roomy → post (.error e))

/-- The result of checked arithmetic. -/
def BinaryOp.checked (op : BinaryOp) : Option Int32 → Except RunError Int32
  | some v => .ok v
  | none => .error (.overflow op.symbol)

namespace Heap

variable {h g h' : Heap κ} {given kept made rest : Multiset Ref} {a b r : Ref} {x y v : Int32}

theorem IsShort.unique (hx : h.IsShort a x) (hy : h.IsShort a y) : x = y := by
  obtain ⟨o, live, payload⟩ := hx
  obtain ⟨o', live', payload'⟩ := hy
  rw [live] at live'
  cases live'
  exact Payload.short.inj (payload.symm.trans payload')

theorem IsFresh.isShort (fresh : h.IsFresh r v) : h.IsShort r v := by
  obtain ⟨o, live, payload, -⟩ := fresh
  exact ⟨o, live, payload⟩

namespace Turns

theorem refl (h : Heap κ) (held : Multiset Ref) : h.Turns held h held := ⟨.refl, .refl h⟩

theorem trans (first : h.Turns given g kept) (last : g.Turns kept h' made) : h.Turns given h' made :=
  ⟨first.deals.trans last.deals, first.framed.trans last.framed⟩

theorem frame (t : h.Turns given g made) (rest : Multiset Ref) : h.Turns (given + rest) g (made + rest) :=
  ⟨t.deals.frame rest, t.framed⟩

theorem emit (h : Heap κ) (op typeName : String) (position : Nat) :
    h.Turns 0 (h.emit (.dispatch op typeName position)) 0 :=
  ⟨.dispatch op typeName position, framed_emit h _⟩

theorem release (bal : h.Balanced ({a} + rest)) : h.Turns {a} (h.release a) 0 :=
  ⟨release_deals bal, framed_release h a⟩

theorem releasePair (bal : h.Balanced ({a} + {b} + rest)) : h.Turns ({a} + {b}) (h.releaseAll [a, b]) 0 := by
  rw [add_assoc] at bal
  have first := Turns.release bal
  have bal' := first.deals.balanced bal
  have first := first.frame {b}
  rw [zero_add] at first bal'
  exact first.trans (Turns.release bal')

/-- One reference more. -/
theorem gain (t : h.Turns given g made) (more : g.Turns 0 h' {a}) : h.Turns given h' ({a} + made) := by
  have more := more.frame made
  rw [zero_add] at more
  exact t.trans more

/-- Who holds a short finds it unchanged. -/
theorem isShort (t : h.Turns given g made) (bal : h.Balanced (given + rest)) (hr : r ∈ rest) (short : h.IsShort r v) :
    g.IsShort r v := by
  obtain ⟨o, live, payload⟩ := short
  obtain ⟨n, live'⟩ := t.deals.object_kept bal live hr
  exact ⟨_, live', payload⟩

theorem setting (t : h.Turns given g made) : g.setting = h.setting := by
  unfold Heap.setting
  rw [t.framed.maxDepth, t.framed.depth]

end Turns

/-- Giving something else back leaves a short that is held as it is: its count does not
grow, and it is not zero. -/
theorem IsFresh.release (bal : h.Balanced ({a} + rest)) (hr : r ∈ rest) (fresh : h.IsFresh r v) :
    (h.release a).IsFresh r v := by
  obtain ⟨o, live, payload, alone⟩ := fresh
  have d := release_deals bal
  obtain ⟨n, live'⟩ := d.object_kept bal live hr
  refine ⟨_, live', payload, fun mortal => ?_⟩
  have counted : 1 ≤ n := ((d.balanced bal).wellFormed.objects r _ live').counted
  obtain ⟨dead, f, -⟩ := releaseAll_fells bal.wellFormed [a]
  obtain ⟨-, old, hold, he⟩ := f.object?_eq (show (h.releaseAll [a]).object? r = _ from live')
  rw [live] at hold
  cases hold
  have hn : n = (o.less _).refcount := congrArg Object.refcount he
  simp only [Object.less, show o.immortal = false from mortal, alone mortal, Bool.false_eq_true, if_false] at hn
  show n = 1
  omega

end Heap

namespace Brings

variable {h g : Heap κ} {given kept rest : Multiset Ref} {post post' : Except RunError Int32 → Prop}
  {p : Except RunError Ref × Heap κ} {a : Ref}

/-- Work that goes on where other work has ended. -/
theorem after (t : h.Turns given g kept) (brings : Brings g kept post p) : Brings h given post p := by
  obtain ⟨result, g'⟩ := p
  cases result with
  | ok r => exact ⟨t.trans brings.1, brings.2⟩
  | error e => exact ⟨t.trans brings.1, fun roomy => brings.2 (t.framed.roomy roomy)⟩

theorem mono (brings : Brings h given post p) (imp : ∀ x, post x → post' x) : Brings h given post' p := by
  obtain ⟨result, g⟩ := p
  cases result with
  | ok r =>
    obtain ⟨t, v, hv, fresh⟩ := brings
    exact ⟨t, v, imp _ hv, fresh⟩
  | error e => exact ⟨brings.1, fun roomy => imp _ (brings.2 roomy)⟩

/-- What cannot fail where there is room has no error to account for. -/
theorem refused {e : RunError} {v : Int32} (brings : Brings h given (· = .ok v) (.error e, g)) :
    Brings h given post (.error e, g) :=
  ⟨brings.1, fun roomy => nomatch brings.2 roomy⟩

/-- What was only looked at is given back. -/
theorem release (bal : h.Balanced (given + {a} + rest)) (brings : Brings h given post p) :
    Brings h (given + {a}) post (p.1, p.2.release a) := by
  have turn : ∀ {made}, h.Turns given p.2 made → h.Turns (given + {a}) (p.2.release a) made ∧
      p.2.Balanced ({a} + (made + rest)) := by
    intro made t
    have bal' : p.2.Balanced ({a} + (made + rest)) := by
      have bal' := (t.frame {a}).deals.balanced bal
      rwa [add_comm made, add_assoc] at bal'
    have last := (Heap.Turns.release bal').frame made
    rw [zero_add, add_comm] at last
    exact ⟨(t.frame {a}).trans last, bal'⟩
  obtain ⟨result, g⟩ := p
  cases result with
  | ok r =>
    obtain ⟨t, v, hv, fresh⟩ := brings
    obtain ⟨t', bal'⟩ := turn t
    exact ⟨t', v, hv, fresh.release bal' (by simp)⟩
  | error e => exact ⟨(turn brings.1).1, brings.2⟩

/-- Work one level deeper. -/
theorem leaveRecursion (brings : Brings { h with depth := h.depth + 1 } given post p) :
    Brings h given post (p.1, p.2.leaveRecursion) := by
  have turn : ∀ {made}, Heap.Turns { h with depth := h.depth + 1 } given p.2 made →
      h.Turns given p.2.leaveRecursion made := by
    intro made t
    have entered := (Deals.setDepth (h := h) (h.depth + 1)).frame given
    have left := (Deals.setDepth (h := p.2) (p.2.depth - 1)).frame made
    rw [zero_add] at entered left
    refine ⟨(entered.trans t.deals).trans left, t.framed.types, t.framed.interned, ?_, t.framed.roomy,
      t.framed.maxDepth⟩
    exact congrArg (· - 1) t.framed.depth
  obtain ⟨result, g⟩ := p
  cases result with
  | ok r => exact ⟨turn brings.1, brings.2⟩
  | error e => exact ⟨turn brings.1, brings.2⟩

end Brings

/-! ### Making and sharing -/

/-- A tracker keeps its limits. -/
theorem Tracker.allocate_maxDepth {t t' : Tracker} {size : Nat} (charged : t.allocate size = .ok t') :
    t'.maxDepth = t.maxDepth ∧ (t.Roomy → t'.Roomy) := by
  cases t with
  | unmetered =>
    cases charged
    exact ⟨rfl, id⟩
  | metered limits allocations memory =>
    simp only [Tracker.allocate] at charged
    split at charged <;> cases charged
    exact ⟨rfl, id⟩

namespace Heap

variable {h g : Heap κ} {held rest : Multiset Ref} {a b r : Ref} {x y v : Int32}

/-- Where there is room every short can be had. -/
theorem WellFormed.short_roomy (wf : h.WellFormed) (roomy : h.ledger.tracker.Roomy) (v : Int32) :
    ∃ r g, Heap.short v h = .ok (.ok r, g) ∧ h.Framed g ∧ g.IsShort r v := by
  cases found : h.interned.short? v with
  | some r =>
    obtain ⟨o, live, payload, -⟩ := wf.find?_object (show h.interned.find? (.short v) = some r from found)
    refine ⟨r, _, short_of_hit found (hit_eq live), (framed_emit h _).setSlot r _,
      { o with refcount := o.refcount + 1 }, ?_, payload⟩
    exact (Store.writes_put (slot_of_object? live) _).object?_self
  | none =>
    have hd : h.types.get? .short = some Registry.shortType := wf.builtin .short rfl
    obtain ⟨r, g, taken, framed⟩ := wf.takeBlock_roomy roomy Registry.shortType.name
      (Registry.shortType.blockSize (Payload.short v).children.length)
    obtain ⟨-, w, -⟩ := Change.make_writes wf (.fresh .short Registry.shortType (.short v)) taken
    refine ⟨r, _, ?_, framed.setSlot r _, _, w.object?_self, rfl⟩
    unfold Heap.short
    rw [found]
    exact construct_of_taken hd taken

theorem framed_takeBlock {name : String} {size : Nat} (taken : h.takeBlock name size = .ok (.ok r, g)) :
    h.Framed g := by
  rcases takeBlock_cases taken with ⟨c, next, n, -, -, -, rfl⟩ | ⟨ledger, -, charged, -, rfl⟩
  · exact ⟨rfl, rfl, rfl, id, rfl⟩
  · obtain ⟨hd, roomy⟩ := Tracker.allocate_maxDepth (Ledger.allocate_ok charged).2
    exact ⟨rfl, rfl, rfl, roomy, hd⟩

theorem WellFormed.short_ends (wf : h.WellFormed) (v : Int32) :
    Ends E (fun p => h.Framed p.2 ∧ ∀ r, p.1 = .ok r → p.2.IsFresh r v) (Heap.short v h) := by
  cases found : h.interned.short? v with
  | some r =>
    obtain ⟨o, live, payload, immortal⟩ := wf.find?_object (show h.interned.find? (.short v) = some r from found)
    rw [short_of_hit found (hit_eq live)]
    refine ⟨(framed_emit h _).setSlot r _, fun r' hr => ?_⟩
    cases hr
    refine ⟨_, (Store.writes_put (slot_of_object? live) _).object?_self, payload, fun mortal => ?_⟩
    exact absurd (mortal.symm.trans immortal) Bool.false_ne_true
  | none =>
    have known : h.types.get .short = .ok Registry.shortType := by
      unfold Registry.get
      rw [wf.builtin .short rfl]
      rfl
    unfold short
    rw [found]
    refine Ends.bindOk known (Ends.bind (wf.takeBlock_ends _ _) fun p taken => ?_)
    obtain ⟨result, g⟩ := p
    cases result with
    | error e =>
      rw [takeBlock_refused taken]
      exact ⟨.refl h, fun _ hr => nomatch hr⟩
    | ok r =>
      obtain ⟨-, w, -⟩ := Change.make_writes wf (.fresh .short Registry.shortType (.short v)) taken
      refine ⟨(framed_takeBlock taken).setSlot r _, fun r' hr => ?_⟩
      cases hr
      exact ⟨_, w.object?_self, rfl, fun _ => rfl⟩

/-- A short is shared if it is interned and made otherwise, unless its block is refused. -/
theorem Balanced.short_brings (bal : h.Balanced held) (v : Int32) :
    Ends E (Brings h 0 (· = .ok v)) (Heap.short v h) := by
  refine (bal.wellFormed.short_ends v).remember.mono fun p hp => ?_
  obtain ⟨result, g⟩ := p
  obtain ⟨done, framed, fresh⟩ := hp
  have deals := (short_trades bal v).of_ok done
  cases result with
  | ok r => exact ⟨⟨deals, framed⟩, v, rfl, fresh r rfl⟩
  | error e =>
    refine ⟨⟨deals, framed⟩, fun roomy => ?_⟩
    obtain ⟨r, g', made, -⟩ := bal.wellFormed.short_roomy roomy v
    rw [done] at made
    cases made

theorem newRef_turns {o : Object} (live : h.object? a = some o) :
    Ends E (fun p => p.1 = a ∧ h.Turns 0 p.2 {a}) (Heap.newRef a h) := by
  unfold Heap.newRef acquire
  rw [live]
  exact ⟨rfl, .acquire live, (Framed.refl h).setSlot a _⟩

/-! ### Operators -/

theorem IsShort.typeOf (short : h.IsShort a v) (wf : h.WellFormed) : h.typeOf a = .ok Registry.shortType := by
  obtain ⟨o, live, payload⟩ := short
  have fits : o.payload.Fits o.type := (wf.objects a o live).fits
  rw [payload] at fits
  have hd : h.types.get? o.type = some Registry.shortType := by
    rw [show o.type = .short from fits]
    exact wf.builtin .short rfl
  simp only [Heap.typeOf, get, live, Registry.get, hd, bind, Except.bind]

theorem IsShort.shortValue (short : h.IsShort a v) (op : String) : h.shortValue op a = .ok (.ok v) := by
  obtain ⟨o, live, payload⟩ := short
  have hget : h.get a = .ok o := by
    unfold get
    rw [live]
  rw [Heap.shortValue, hget]
  refine (look_bind o _).trans ?_
  simp only [payload]
  rfl

theorem IsShort.value (short : h.IsShort a v) (op : String) :
    Ends E (fun p => p = (.ok v, h)) (Short.value op a h) := by
  unfold Short.value reading
  exact Ends.bindOk (short.shortValue op) rfl

/-- An operator goes to the type of its first operand, if that is a short and has a handler. -/
theorem IsShort.resolve {α : Type} (short : h.IsShort a v) (wf : h.WellFormed) {find : Descriptor κ → Option α} {f : α}
    (hf : find Registry.shortType = some f) (op : String) (operands : List Ref) :
    h.resolve op find [] (a :: operands) = .ok (.ok (f, .dispatch op (Registry.shortType (κ := κ)).name 0)) :=
  resolve_found (short.typeOf wf) hf

/-- Checked arithmetic consumes its operands on every path. -/
theorem Balanced.arithmetic_brings (bal : h.Balanced ({a} + {b} + rest)) (hx : h.IsShort a x) (hy : h.IsShort b y)
    (op : BinaryOp) (f : Int32 → Int32 → Option Int32) :
    Ends E (Brings h ({a} + {b}) (· = op.checked (f x y))) (Short.arithmetic op f a b h) := by
  have body : Ends E (Brings h 0 (· = op.checked (f x y)))
      ((do
        let x ← Short.value op.symbol a
        let y ← Short.value op.symbol b
        Heap.short (← Short.checked op.symbol (f x y)) : RunM κ Ref) h) := by
    refine Ends.runBind (hx.value _) (fun x' g hp => ?_) fun e g hp => nomatch hp
    cases hp
    refine Ends.runBind (hy.value _) (fun y' g hp => ?_) fun e g hp => nomatch hp
    cases hp
    cases f x y with
    | some v => exact bal.short_brings v
    | none => exact ⟨Turns.refl h 0, fun _ => rfl⟩
  refine Ends.bind body fun p brings => ?_
  have bal₀ : h.Balanced (0 + {a} + ({b} + rest)) := by rwa [zero_add, ← add_assoc]
  have bal₁ : h.Balanced (0 + {a} + {b} + rest) := by rwa [zero_add]
  have last := (brings.release bal₀).release bal₁
  rw [zero_add] at last
  exact last

/-- An operator whose handler is built into shorts. -/
theorem Balanced.binary_brings (bal : h.Balanced ({a} + {b} + rest)) (hx : h.IsShort a x) (hy : h.IsShort b y)
    (host : Host κ) (inner : Perform κ) (op : BinaryOp) (handler : Handler κ .binary)
    (hh : Registry.shortType.binary? op = some handler) {f : Int32 → Int32 → Option Int32}
    (hf : handler.binary host inner a b = Short.arithmetic op f a b) (n : Nat) :
    Ends E (Brings h ({a} + {b}) (· = op.checked (f x y))) (step host n inner (.binary op a b) h) := by
  refine Ends.bindOk (hx.resolve bal.wellFormed hh _ _) ?_
  have dispatched := (Turns.emit h op.symbol (Registry.shortType (κ := κ)).name 0).frame ({a} + {b})
  rw [zero_add] at dispatched
  show Ends E _ (handler.binary host inner a b (h.emit _))
  rw [hf]
  have bal' := dispatched.deals.balanced bal
  exact (bal'.arithmetic_brings hx hy op f).mono fun p brings => brings.after dispatched

/-- What is no short has no value of one. -/
theorem WellFormed.shortValue_other (wf : h.WellFormed) {o : Object} (live : h.object? a = some o)
    (other : ∀ v, o.payload ≠ .short v) (op : String) :
    Ends E (fun x => ∃ e, x = .error e) (h.shortValue op a) := by
  refine Ends.lookBind (get_ends ⟨o, live⟩) fun o' live' => ?_
  rw [live] at live'
  cases live'
  cases hp : o.payload with
  | short v => exact absurd hp (other v)
  | none | bool | tuple | host => exact Ends.lookBind (wf.typeName_ends ⟨o, live⟩) fun _ _ => ⟨_, rfl⟩

/-- Of the built-in types only shorts have an order. -/
theorem WellFormed.typeOf_other (wf : h.WellFormed) {o : Object} (live : h.object? a = some o)
    (builtin : o.type.isBuiltin = true) (other : ∀ v, o.payload ≠ .short v) :
    ∃ d, h.typeOf a = .ok d ∧ d.comparison? .lessOrEqual = Option.none := by
  have fits := (wf.objects a o live).fits
  have known := wf.builtin o.type builtin
  have typeOf : ∀ {d}, (Registry.builtin (κ := κ)).get? o.type = some d → h.typeOf a = .ok d := by
    intro d hd
    rw [hd] at known
    simp only [Heap.typeOf, get, live, Registry.get, known, bind, Except.bind]
  cases hp : o.payload with
  | short v => exact absurd hp (other v)
  | none | bool | tuple =>
    rw [hp] at fits
    have ht : o.type = _ := fits
    rw [ht] at typeOf
    exact ⟨_, typeOf rfl, rfl⟩
  | host =>
    rw [hp] at fits
    exact absurd (fits.symm.trans builtin) Bool.false_ne_true

/-- Comparing with a short gives both back, and an answer just if the other is a short too. -/
theorem Balanced.lessOrEqual_turns (bal : h.Balanced ({a} + {b} + rest)) {o : Object} (live : h.object? a = some o)
    (builtin : o.type.isBuiltin = true) (hy : h.IsShort b y) (host : Host κ) (n : Nat) :
    Ends E (fun p => h.Turns ({a} + {b}) p.2 0 ∧ match p.1 with
        | .ok t => ∃ x, h.IsShort a x ∧ t = decide (x ≤ y)
        | .error _ => ∀ x, ¬ h.IsShort a x)
      (compareConsuming host n .lessOrEqual a b h) := by
  have wf := bal.wellFormed
  have back : ∀ op typeName position,
      h.Turns ({a} + {b}) ((h.emit (.dispatch op typeName position)).releaseAll [a, b]) 0 := by
    intro op typeName position
    have dispatched := (Turns.emit h op typeName position).frame ({a} + {b})
    rw [zero_add] at dispatched
    exact dispatched.trans (Turns.releasePair (dispatched.deals.balanced bal))
  by_cases hx : ∃ x, o.payload = .short x
  · obtain ⟨x, hx⟩ := hx
    have short : h.IsShort a x := ⟨o, live, hx⟩
    have answer : ∀ event, (h.emit event).shortLessOrEqual a b = .ok (.ok (decide (x ≤ y))) := by
      intro event
      unfold shortLessOrEqual
      rw [IsShort.shortValue (h := h.emit event) short, IsShort.shortValue (h := h.emit event) hy]
      rfl
    refine Ends.bindOk (short.resolve wf (f := .builtin .shortLessOrEqual) rfl _ _) ?_
    exact Ends.bindOk (answer _) ⟨back _ _ _, x, short, rfl⟩
  · have other : ∀ v, o.payload ≠ .short v := fun v hv => hx ⟨v, hv⟩
    obtain ⟨d, typeOf, none⟩ := wf.typeOf_other live builtin other
    have resolved : h.resolve CompareOp.lessOrEqual.symbol (·.comparison? .lessOrEqual) [] [a, b] =
        .ok (.ok (.builtin .shortLessOrEqual, .dispatch _ (Registry.shortType (κ := κ)).name 1)) :=
      (resolve_passed typeOf none).trans (resolve_found (hy.typeOf wf) rfl)
    have answer : ∀ event, Ends E (fun x => ∃ e, x = .error e) ((h.emit event).shortLessOrEqual a b) := by
      intro event
      have wf' : (h.emit event).WellFormed := wf.of_eq rfl rfl rfl
      exact Ends.readBind (wf'.shortValue_other live other _) (fun x hx => nomatch hx) fun e _ => ⟨e, rfl⟩
    refine Ends.bindOk resolved (Ends.bind (answer _) fun x hx => ?_)
    obtain ⟨e, rfl⟩ := hx
    refine ⟨back _ _ _, fun x short => ?_⟩
    obtain ⟨o', live', payload⟩ := short
    rw [live] at live'
    cases live'
    exact other x payload

end Heap

/-! ### Running code -/

theorem Code.run_bind (inner : Perform κ) (f : α → Procedure κ β) : ∀ code : Procedure κ α,
    (code >>= f).run inner = code.run inner >>= fun a => (f a).run inner
  | .done a => rfl
  | .call r next => by
    show (inner r >>= fun x => (next x >>= f).run inner) = (inner r >>= fun x => (next x).run inner) >>= _
    rw [bind_assoc]
    exact congrArg (inner r >>= ·) (funext fun x => run_bind inner f (next x))

theorem Code.run_ends {P : α × Heap κ → Prop} {Q : β × Heap κ → Prop} {inner : Perform κ} {h : Heap κ}
    {code : Procedure κ α} {f : α → Procedure κ β} (hc : Ends E P (code.run inner h))
    (hf : ∀ a g, P (a, g) → Ends E Q ((f a).run inner g)) : Ends E Q ((code >>= f).run inner h) := by
  rw [Code.run_bind]
  exact Ends.heapBind hc hf

/-- Code that is one request. -/
theorem Procedure.ask_ends (r : Request κ) {Q : r.Answer × Heap κ → Prop} {inner : Perform κ} {h : Heap κ}
    (hr : Ends E Q (inner r h)) : Ends E Q ((Procedure.ask r).run inner h) :=
  Ends.bind hr fun _ hp => hp

namespace Routine

variable {P : Except RunError α × Heap κ → Prop} {Q : Except RunError β × Heap κ → Prop} {inner : Perform κ}
  {h : Heap κ}

theorem bind_ends {x : Routine κ α} {f : α → Routine κ β} (hx : Ends E P (x.exec inner h))
    (ok : ∀ a g, P (.ok a, g) → Ends E Q ((f a).exec inner g)) (error : ∀ e g, P (.error e, g) → Q (.error e, g)) :
    Ends E Q ((x >>= f).exec inner h) := by
  refine Code.run_ends (f := ExceptT.bindCont f) hx fun result g hp => ?_
  cases result with
  | ok a => exact ok a g hp
  | error e => exact error e g hp

theorem catch_ends {Q : Except RunError α × Heap κ → Prop} {x : Routine κ α} {handle : RunError → Routine κ α}
    (hx : Ends E P (x.exec inner h)) (ok : ∀ a g, P (.ok a, g) → Q (.ok a, g))
    (error : ∀ e g, P (.error e, g) → Ends E Q ((handle e).exec inner g)) :
    Ends E Q ((tryCatch x handle).exec inner h) := by
  refine Code.run_ends hx fun result g hp => ?_
  cases result with
  | ok a => exact ok a g hp
  | error e => exact error e g hp

theorem sure_ends {Q : Except RunError α × Heap κ → Prop} {code : Procedure κ α}
    (hc : Ends E (fun p => Q (.ok p.1, p.2)) (code.run inner h)) : Ends E Q ((sure code).exec inner h) :=
  Code.run_ends hc fun _ _ hq => hq

theorem andFinally_ends {Q : Except RunError α × Heap κ → Prop} {body : Routine κ α} {cleanup : Routine κ Unit}
    (hb : Ends E P (body.exec inner h))
    (hc : ∀ x g, P (x, g) → Ends E (fun p => Q (x, p.2)) (cleanup.exec inner g)) :
    Ends E Q ((body.andFinally cleanup).exec inner h) := by
  refine Code.run_ends hb fun result g hp => ?_
  exact Code.run_ends (hc result g hp) fun _ g' hq => hq

theorem recursing_ends {Q : Except RunError α × Heap κ → Prop} {R : Except RunError Unit × Heap κ → Prop}
    {refs : List Ref} {body : Routine κ α} (enter : Ends E R (enterRecursion.exec inner h))
    (refused : ∀ e g, R (.error e, g) → Ends E (fun p => Q (.error e, p.2)) ((releaseAll refs).exec inner g))
    (entered : ∀ g, R (.ok (), g) → Ends E Q ((body.andFinally leaveRecursion).exec inner g)) :
    Ends E Q ((recursing refs body).exec inner h) := by
  refine Code.run_ends enter fun result g hp => ?_
  cases result with
  | error e => exact Code.run_ends (refused e g hp) fun _ g' hq => hq
  | ok => exact entered g hp

end Routine

/-! ### Shorts in code -/

/-- The requests are performed by the host, on some part of its stack. -/
def Host.Serves (host : Host κ) (inner : Perform κ) : Prop := ∃ n deeper, ∀ r, inner r = step host n deeper r

theorem Host.serves_perform (host : Host κ) (n : Nat) : host.Serves (CountedHeap.perform host n) := by
  cases n with
  | zero => exact ⟨0, _, fun _ => rfl⟩
  | succ n => exact ⟨n + 1, _, fun _ => rfl⟩

/-- A request that does the same on any part of the stack. -/
theorem Host.Serves.ask_ends {host : Host κ} {inner : Perform κ} (serves : host.Serves inner) (r : Request κ)
    {Q : r.Answer × Heap κ → Prop} {h : Heap κ} (hr : ∀ n deeper, Ends E Q (step host n deeper r h)) :
    Ends E Q ((Procedure.ask r).run inner h) := by
  obtain ⟨n, deeper, hi⟩ := serves
  refine Procedure.ask_ends r ?_
  rw [hi]
  exact hr n deeper

namespace Host.Serves

open Routine

variable {host : Host κ} {inner : Perform κ} (serves : host.Serves inner)
include serves

theorem short_exec {h : Heap κ} {held : Multiset Ref} (bal : h.Balanced held) (v : Int32) :
    Ends E (Brings h 0 (· = .ok v)) ((Routine.short v).exec inner h) :=
  serves.ask_ends (.short v) fun _ _ => bal.short_brings v

theorem acquire_exec {h : Heap κ} {a : Ref} {o : Object} (live : h.object? a = some o) :
    Ends E (fun p => p.1 = .ok a ∧ h.Turns 0 p.2 {a}) ((Routine.acquire a).exec inner h) :=
  sure_ends (serves.ask_ends (.acquire a) fun _ _ => (Heap.newRef_turns live).mono fun _ hp =>
    ⟨congrArg Except.ok hp.1, hp.2⟩)

theorem release_exec (a : Ref) (h : Heap κ) :
    Ends E (fun p => p = (.ok (), h.release a)) ((Routine.release a).exec inner h) :=
  sure_ends (serves.ask_ends (.release a) fun _ _ => rfl)

/-- A level of recursion is entered unless the limit is reached. -/
theorem enter_exec (h : Heap κ) :
    Ends E (fun p => match h.setting.full? with
        | some limit => p = (.error (.exhausted (.recursion limit (h.depth + 1))), h)
        | .none => p = (.ok (), { h with depth := h.depth + 1 }))
      (Routine.enterRecursion.exec inner h) := by
  refine serves.ask_ends .enterRecursion fun _ _ => ?_
  cases full : h.setting.full? with
  | some limit =>
    have refused : h.enterRecursion = .error (.recursion limit (h.depth + 1)) := by
      unfold Heap.enterRecursion Tracker.checkDepth
      rw [show h.ledger.tracker.maxDepth.filter (· ≤ h.depth) = _ from full]
    unfold step
    simp only [refused]
    rfl
  | none =>
    have entered : h.enterRecursion = .ok { h with depth := h.depth + 1 } := by
      unfold Heap.enterRecursion Tracker.checkDepth
      rw [show h.ledger.tracker.maxDepth.filter (· ≤ h.depth) = _ from full]
    unfold step
    simp only [entered]
    rfl

theorem leave_exec (h : Heap κ) :
    Ends E (fun p => p = (.ok (), h.leaveRecursion)) (Routine.leaveRecursion.exec inner h) :=
  sure_ends (serves.ask_ends .leaveRecursion fun _ _ => rfl)

end Host.Serves

end CountedHeap
