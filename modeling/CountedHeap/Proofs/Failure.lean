/-
# A failing operation gives its operands back and does nothing else

An operator can fail because no type of its operands has a handler, or in a
built-in handler: by the type or the value of an operand, by the result, or for
want of a block. Each way leaves the heap that giving the operands back from left
to right makes, with the same counts, lists and books; only what was reported
differs. So a caller never has to ask how far an operation came before it failed.

The one operation that does something before it can fail is to join tuples: it
shares the items of both before it asks for a block. Sharing is undone exactly
(`Heap.releaseAll_share`), since an object that was live before it has one
reference more than it needs when each comes back.

Key definitions: `Heap.untraced`, `Heap.raise`, `FailsTo`, `Host.Releases`.
Key theorems: `Heap.releaseAll_untraced`, `Heap.releaseAll_share`,
`Heap.dispatch_fails`, `failure_releases`.
-/
import CountedHeap.Proofs.Balance
import CountedHeap.Proofs.Evolution

namespace CountedHeap

variable {κ : Role → Type} {α β : Type}

/-! ### Heaps that differ in what was reported -/

namespace Heap

/-- The heap with a silent tracer. -/
def untraced (h : Heap κ) : Heap κ := { h with tracer := {} }

theorem untraced_emit (h : Heap κ) (e : Event) : (h.emit e).untraced = h.untraced := rfl

theorem bury_untraced (h : Heap κ) (r : Ref) (dead : Object) : (h.bury r dead).untraced = h.untraced.bury r dead := by
  have hp : (h.untraced.setSlot r .vacant).parkingFor? dead = (h.setSlot r .vacant).parkingFor? dead := rfl
  unfold bury freeBlock
  rw [hp]
  cases (h.setSlot r .vacant).parkingFor? dead <;> rfl

theorem cascade_untraced (h : Heap κ) (first : Option Inconsistency) (pending : List Ref) :
    h.untraced.cascade first pending = ((h.cascade first pending).1.untraced, (h.cascade first pending).2) := by
  fun_induction cascade h first pending with
  | case1 h first => rw [cascade]
  | case2 h first r rest cause hv ih => rw [cascade_refused (h := h.untraced) hv, ih]
  | case3 h first r rest o hv ih =>
    rw [cascade_kept (h := h.untraced) hv]
    exact ih
  | case4 h first r rest o hv ih => rw [cascade_dies (h := h.untraced) hv, ← bury_untraced, ih]

theorem release_untraced (h : Heap κ) (r : Ref) : (h.release r).untraced = h.untraced.release r := by
  unfold release tryRelease
  rw [cascade_untraced]
  split
  · rename_i g he
    rw [he]
  · rename_i g cause he
    rw [he]
    rfl

theorem releaseAll_untraced : ∀ (refs : List Ref) (h : Heap κ),
    (h.releaseAll refs).untraced = h.untraced.releaseAll refs
  | [], h => rfl
  | r :: rest, h => by
    have ih := releaseAll_untraced rest (h.release r)
    rw [release_untraced] at ih
    exact ih

end Heap

/-! ### References added and taken away again -/

/-- The object in a slot with `n` references more. -/
def Slot.raise (n : Nat) : Slot → Slot
  | .live o => .live { o with refcount := o.refcount + n }
  | slot => slot

theorem Slot.raise_zero (slot : Slot) : slot.raise 0 = slot := by
  cases slot <;> rfl

namespace Heap

def withSlots (h : Heap κ) (slots : Array Slot) : Heap κ := { h with store := { h.store with slots := slots } }

/-- The heap with the references `more` added to the counts of its objects. -/
def raise (h : Heap κ) (more : Multiset Ref) : Heap κ :=
  h.withSlots (h.store.slots.mapIdx fun i slot => slot.raise (more.count ⟨i⟩))

variable {h g : Heap κ} {r : Ref} {o : Object}

theorem raise_slots (h : Heap κ) (more : Multiset Ref) (i : Nat) :
    (h.raise more).store.slots[i]? = (h.store.slots[i]?).map (Slot.raise (more.count ⟨i⟩)) :=
  Array.getElem?_mapIdx

theorem raise_zero (h : Heap κ) : h.raise 0 = h := by
  refine congrArg h.withSlots (Array.ext_getElem? fun i => ?_)
  rw [Array.getElem?_mapIdx]
  cases h.store.slots[i]? with
  | none => rfl
  | some slot => rw [Option.map_some, Multiset.count_zero, Slot.raise_zero]

theorem object?_raise (h : Heap κ) (more : Multiset Ref) (r : Ref) :
    (h.raise more).object? r = (h.object? r).map fun o => { o with refcount := o.refcount + more.count r } := by
  unfold object? Store.object?
  rw [raise_slots]
  cases h.store.slots[r.index]? with
  | none => rfl
  | some slot => cases slot <;> rfl

/-- To go from `more` to `more'`, where they differ at one object, its count is written. -/
theorem setSlot_raise (live : h.object? r = some o) {more more' : Multiset Ref}
    (same : ∀ a, a ≠ r → more'.count a = more.count a) :
    (h.raise more).setSlot r (.live { o with refcount := o.refcount + more'.count r }) = h.raise more' := by
  have hs : (h.raise more).store.slots[r.index]? = some (.live { o with refcount := o.refcount + more.count r }) :=
    slot_of_object? (by rw [object?_raise, live]; rfl)
  have w := Store.writes_put hs (.live { o with refcount := o.refcount + more'.count r })
  refine congrArg h.withSlots (Array.ext_getElem? fun i => ?_)
  refine (w i).trans ?_
  rw [Array.getElem?_mapIdx]
  by_cases hi : i = r.index
  · subst hi
    rw [if_pos rfl, slot_of_object? live]
    rfl
  · have hr : (⟨i⟩ : Ref) ≠ r := fun he => hi (congrArg Ref.index he)
    rw [if_neg hi, same _ hr, raise_slots]

theorem newRef_raise (h : Heap κ) (r : Ref) (more : Multiset Ref) :
    Ends (fun _ => True) (fun p => (∃ o, h.object? r = some o) ∧ p.2 = h.raise (r ::ₘ more))
      (newRef r (h.raise more)) := by
  unfold newRef acquire
  rw [object?_raise]
  cases live : h.object? r with
  | none => trivial
  | some o =>
    refine ⟨⟨o, rfl⟩, ?_⟩
    rw [← setSlot_raise live fun a ha => Multiset.count_cons_of_ne ha more, Multiset.count_cons_self]
    rfl

/-- A reference that was added is taken away again. -/
theorem release_raise (wf : h.WellFormed) (live : h.object? r = some o) (more : Multiset Ref) :
    (h.raise (r ::ₘ more)).release r = h.raise more := by
  have hpos := (wf.objects r o live).counted
  have hv : (h.raise (r ::ₘ more)).verdict r = .kept { o with refcount := o.refcount + more.count r + 1 } := by
    unfold verdict
    rw [slot_of_object? (h := h.raise (r ::ₘ more)) (by rw [object?_raise, live]; rfl)]
    simp only [Multiset.count_cons_self]
    rw [if_neg (by omega), if_pos (by omega)]
    rfl
  unfold release tryRelease
  rw [cascade_kept hv, cascade]
  exact setSlot_raise live fun a ha => (Multiset.count_cons_of_ne ha more).symm

theorem share_raise (h : Heap κ) : ∀ (items : List Ref) (more : Multiset Ref),
    Ends (fun _ => True) (fun p => (∀ a ∈ items, ∃ o, h.object? a = some o) ∧ p.2 = h.raise (items + more))
      (Tuple.share items (h.raise more))
  | [], more => by
    refine ⟨fun a ha => absurd ha List.not_mem_nil, ?_⟩
    rw [Multiset.coe_nil, zero_add]
  | r :: rest, more => by
    refine Ends.heapBind (newRef_raise h r more) fun _ g hg => ?_
    obtain ⟨live, rfl⟩ := hg
    refine (share_raise h rest (r ::ₘ more)).mono fun p hp => ?_
    obtain ⟨others, he⟩ := hp
    refine ⟨fun a ha => ?_, ?_⟩
    · rcases List.mem_cons.mp ha with rfl | ha
      · exact live
      · exact others a ha
    · rw [he, Multiset.add_cons, ← Multiset.cons_add, Multiset.cons_coe]

theorem releaseAll_raise (wf : h.WellFormed) : ∀ {items : List Ref} (more : Multiset Ref),
    (∀ a ∈ items, ∃ o, h.object? a = some o) → (h.raise (items + more)).releaseAll items = h.raise more
  | [], more, _ => by
    simp [releaseAll]
  | r :: rest, more, live => by
    obtain ⟨o, hr⟩ := live r List.mem_cons_self
    have hstep := release_raise wf hr (rest + more)
    rw [← Multiset.cons_add] at hstep
    show ((h.raise (r ::ₘ (rest : Multiset Ref) + more)).release r).releaseAll rest = _
    rw [hstep]
    exact releaseAll_raise wf more fun a ha => live a (List.mem_cons_of_mem _ ha)


/-- New references to items, given back at once, leave no trace. -/
theorem releaseAll_share (wf : h.WellFormed) (items : List Ref) :
    Ends (fun _ => True) (fun p => p.2.releaseAll items = h) (Tuple.share items h) := by
  have hs := share_raise h items 0
  rw [raise_zero] at hs
  refine hs.mono fun p hp => ?_
  obtain ⟨live, he⟩ := hp
  rw [he, releaseAll_raise wf 0 live, raise_zero]

end Heap

/-! ### Operations that fail without effect -/

/-- If the computation fails, it leaves `g`. -/
def FailsTo (g : Heap κ) (x : Except Fault (Except RunError α × Heap κ)) : Prop :=
  Ends (fun _ => True) (fun p => ∀ e, p.1 = .error e → p.2 = g) x

namespace FailsTo

variable {h g : Heap κ}

theorem throw (e : RunError) : FailsTo h ((MonadExcept.throw e : RunM κ α) h) := fun _ _ => rfl

/-- What cannot fail leaves what you like. -/
theorem lift (m : HeapM κ α) : FailsTo g ((ExceptT.lift m : RunM κ α) h) :=
  Ends.lift ((Ends.always _).mono fun _ _ _ he => nomatch he)

/-- Reading first. -/
theorem read {f : Heap κ → ReadM α} {k : α → RunM κ β} (hk : ∀ a, FailsTo h (k a h)) :
    FailsTo h ((Heap.reading f >>= k) h) := by
  have hr : Ends (fun _ => True) (fun p => p.2 = h) (Heap.reading f h) := (Ends.always _).bind fun _ _ => rfl
  refine Ends.runBind hr (fun a g hg => ?_) fun e g hg _ _ => hg
  subst hg
  exact hk a

theorem checked {op : String} {v : Option Int32} {k : Int32 → RunM κ β} (hk : ∀ v, FailsTo h (k v h)) :
    FailsTo h ((Heap.Short.checked op v >>= k) h) := by
  cases v with
  | some v => exact hk v
  | none => exact throw _

/-- If the body leaves the heap as it was, all that is left to do is to give the operands back. -/
theorem consuming (refs : List Ref) {body : RunM κ α} (hb : FailsTo h (body h)) :
    FailsTo (h.releaseAll refs) (Heap.consuming refs body h) := by
  unfold Heap.consuming
  refine Ends.bind hb fun p hp e he => ?_
  show p.2.releaseAll refs = _
  rw [hp e he]

end FailsTo

namespace Heap

variable {h g : Heap κ}

/-- A refused block gives back what the object would have owned. -/
theorem construct_fails (type : TypeId) (payload : Payload) (h : Heap κ) :
    FailsTo (h.releaseAll payload.children) (construct type payload h) := by
  unfold construct
  refine Ends.bind (.always _) fun d _ => ?_
  refine Ends.bind (Ends.self fun _ _ => trivial) fun p hp => ?_
  obtain ⟨result, g⟩ := p
  cases result with
  | ok r => exact fun _ he => nomatch he
  | error e =>
    rw [takeBlock_refused hp]
    exact fun _ _ => rfl

theorem short_fails (value : Int32) (h : Heap κ) : FailsTo h (short value h) := by
  unfold short
  cases h.interned.short? value with
  | some r => exact .lift _
  | none => exact construct_fails .short (.short value) h

theorem allocate_fails (type : TypeId) (payload : Int64) (h : Heap κ) : FailsTo h (allocate type payload h) := by
  unfold allocate
  split
  · exact fun _ _ => rfl
  · exact construct_fails type (.host payload) h

/-! ### Built-in handlers -/

theorem Short.unary_fails (op : UnaryOp) (f : Int32 → Option Int32) (a : Ref) :
    FailsTo (h.releaseAll [a]) (Short.unary op f a h) :=
  .consuming _ (.read fun _ => .checked fun v => short_fails v h)

theorem Short.arithmetic_fails (op : BinaryOp) (f : Int32 → Int32 → Option Int32) (a b : Ref) :
    FailsTo (h.releaseAll [a, b]) (Short.arithmetic op f a b h) :=
  .consuming _ (.read fun _ => .read fun _ => .checked fun v => short_fails v h)

theorem Short.division_fails (op : BinaryOp) (f : Int32 → Int32 → Option Int32) (a b : Ref) :
    FailsTo (h.releaseAll [a, b]) (Short.division op f a b h) := by
  refine .consuming _ (.read fun x => .read fun y => ?_)
  split
  · exact .throw _
  · exact .checked fun v => short_fails v h

theorem Short.power_fails (a b c : Ref) : FailsTo (h.releaseAll [a, b, c]) (Short.power a b c h) := by
  refine .consuming _ (.read fun x => .read fun e => ?_)
  split
  · exact .throw _
  refine .read fun modulus => ?_
  split
  · exact .checked fun v => short_fails v h
  refine .read fun m => ?_
  split
  · exact .throw _
  · exact short_fails _ h

/-- If the joined tuple is refused, its items are given back as often as they were shared. -/
theorem Tuple.concat_fails (wf : h.WellFormed) (a b : Ref) : FailsTo (h.releaseAll [a, b]) (Tuple.concat a b h) := by
  refine .consuming _ (.read fun xs => .read fun ys => ?_)
  have hshare : Ends (fun _ => True) (fun p => ∃ x, p.1 = .ok x ∧ p.2.releaseAll (xs ++ ys) = h)
      ((ExceptT.lift (share (xs ++ ys)) : RunM κ Unit) h) :=
    Ends.lift ((releaseAll_share wf _).mono fun p hp => ⟨p.1, rfl, hp⟩)
  refine Ends.runBind hshare (fun _ g hg => ?_) fun e g hg => ?_
  · obtain ⟨_, -, hg⟩ := hg
    exact (construct_fails _ _ g).mono fun p hp e he => (hp e he).trans hg
  · obtain ⟨_, he, -⟩ := hg
    cases he

theorem Tuple.subscript_fails (a b : Ref) : FailsTo (h.releaseAll [a, b]) (Tuple.subscript a b h) :=
  .consuming _ (.read fun _ => .read fun _ => .lift _)

end Heap

namespace Handler

variable (host : Host κ) (inner : Perform κ) {h : Heap κ}

theorem unary_fails (f : Builtin .unary) (a : Ref) :
    FailsTo (h.releaseAll [a]) ((Handler.builtin f).unary host inner a h) := by
  cases f <;> exact Heap.Short.unary_fails _ _ _

theorem binary_fails (wf : h.WellFormed) (f : Builtin .binary) (a b : Ref) :
    FailsTo (h.releaseAll [a, b]) ((Handler.builtin f).binary host inner a b h) := by
  cases f with
  | shortAdd | shortSubtract | shortMultiply => exact Heap.Short.arithmetic_fails _ _ _ _
  | shortRemainder | shortFloorDivide => exact Heap.Short.division_fails _ _ _ _
  | tupleConcat => exact Heap.Tuple.concat_fails wf _ _
  | tupleSubscript => exact Heap.Tuple.subscript_fails _ _

theorem ternary_fails (f : Builtin .ternary) (a b c : Ref) :
    FailsTo (h.releaseAll [a, b, c]) ((Handler.builtin f).ternary host inner a b c h) := by
  cases f with
  | shortPower => exact Heap.Short.power_fails _ _ _

end Handler

/-! ### Requests -/

/-- No code of the host is behind the operator: the first handler found is built in, or none is found. -/
def Heap.native {role : Role} (h : Heap κ) (op : String) (find : Descriptor κ → Option (Handler κ role))
    (operands : List Ref) : Bool :=
  match h.resolve op find [] operands with
  | .ok (.ok (.host _, _)) => false
  | _ => true

/-- Giving references back by requests, from left to right, makes `g` of `h`, up to what is traced. -/
def Host.Releases (host : Host κ) (refs : List Ref) (h g : Heap κ) : Prop :=
  ∃ g', host.performAll (refs.map .release) h = .ok g' ∧ g.untraced = g'.untraced

namespace Host

variable (host : Host κ)

/-- A request is one step, whatever the size of the native stack. -/
theorem perform_eq_step : ∃ n inner, ∀ r : Request κ, host.perform r = step host n inner r := by
  unfold Host.perform
  cases host.frames with
  | zero => exact ⟨0, _, fun _ => rfl⟩
  | succ n => exact ⟨n + 1, _, fun _ => rfl⟩

theorem performAll_release : ∀ (refs : List Ref) (h : Heap κ),
    host.performAll (refs.map .release) h = .ok (h.releaseAll refs)
  | [], h => rfl
  | r :: rest, h => by
    have ih := performAll_release rest (h.release r)
    obtain ⟨n, inner, hstep⟩ := host.perform_eq_step
    rw [List.map_cons, Host.performAll, hstep]
    exact ih

theorem Releases.of_eq {refs : List Ref} {h g : Heap κ} (he : g.untraced = (h.releaseAll refs).untraced) :
    host.Releases refs h g :=
  ⟨_, host.performAll_release refs h, he⟩

end Host

namespace Heap

variable {h : Heap κ}

/-- What is reported first makes no difference. -/
theorem releaseAll_emit (h : Heap κ) (event : Event) (refs : List Ref) :
    ((h.emit event).releaseAll refs).untraced = (h.releaseAll refs).untraced := by
  rw [releaseAll_untraced, releaseAll_untraced, untraced_emit]

/-- An operator that fails in a built-in handler, or finds none, gives its operands back. -/
theorem dispatch_fails {role : Role} {op : String} {find : Descriptor κ → Option (Handler κ role)}
    {operands : List Ref} (call : Handler κ role → RunM κ Ref) (wf : h.WellFormed)
    (own : h.native op find operands = true)
    (hc : ∀ f g, g.WellFormed → FailsTo (g.releaseAll operands) (call (.builtin f) g)) :
    Ends (fun _ => True) (fun p => ∀ e, p.1 = .error e → p.2.untraced = (h.releaseAll operands).untraced)
      (dispatch op find operands call h) := by
  unfold native at own
  refine resolve_bind (fun _ _ => .always _) (fun e _ _ _ => rfl) fun f op' name position hr => ?_
  rw [hr] at own
  cases f with
  | builtin f =>
    have hb := hc f (h.emit (.dispatch op' name position)) (wf.of_eq rfl rfl rfl)
    refine hb.mono fun p hp e he => ?_
    rw [hp e he, releaseAll_emit]
  | host name => cases own

end Heap

/-- A comparison gives its operands back, whatever comes of it. -/
theorem compareConsuming_releases (host : Host κ) (n : Nat) (op : CompareOp) (a b : Ref) (h : Heap κ) :
    Ends (fun _ => True) (fun p => p.2.untraced = (h.releaseAll [a, b]).untraced)
      (compareConsuming host n op a b h) := by
  refine Heap.resolve_bind (fun _ _ => .always _) (fun e _ => rfl) fun f op' name position _ => ?_
  exact Ends.bind (.always _) fun _ _ => Heap.releaseAll_emit h _ _

/-- The heaps of a run are among those that can be reached. -/
theorem Run.reached {host : Host κ} {kept held held' : Multiset Ref} {h g : Heap κ}
    (run : Run host kept h held g held') : Reached host h g := by
  induction run with
  | start _ => exact .start
  | perform r _ _ _ done ih => exact .perform r ih done
  | withTracker t _ ih => exact .withTracker t ih
  | withSink sink _ ih => exact .withSink sink ih

/-- **A failing operation is a release of its operands.** An operator that fails without code of the host, a
comparison in any case, and a tuple whose block is refused leave the heap that releasing the operands or items from
left to right leaves, up to what is reported. A short or an object of a host's type that is refused leaves the heap
as it was. This holds in every heap that can be reached, by balanced runs (`Run.reached`) and others. -/
theorem failure_releases {host : Host κ} {c : Config} {h : Heap κ} (reached : Reached host (.ofConfig c) h) :
    (∀ op a, h.native op.symbol (·.unary? op) [a] = true →
      ∀ e g, host.perform (.unary op a) h = .ok (.error e, g) → host.Releases [a] h g) ∧
    (∀ op a b, h.native op.symbol (·.binary? op) [a, b] = true →
      ∀ e g, host.perform (.binary op a b) h = .ok (.error e, g) → host.Releases [a, b] h g) ∧
    (∀ a b c, h.native powerSymbol (·.power?) [a, b, c] = true →
      ∀ e g, host.perform (.power a b c) h = .ok (.error e, g) → host.Releases [a, b, c] h g) ∧
    (∀ op a b x g, host.perform (.compare op a b) h = .ok (x, g) → host.Releases [a, b] h g) ∧
    (∀ items e g, host.perform (.tuple items) h = .ok (.error e, g) →
      host.performAll (items.map .release) h = .ok g) ∧
    (∀ value e g, host.perform (.short value) h = .ok (.error e, g) → g = h) ∧
    (∀ type payload e g, host.perform (.allocate type payload) h = .ok (.error e, g) → g = h) := by
  obtain ⟨n, inner, hstep⟩ := host.perform_eq_step
  have wf := reached.wellFormed
  simp only [hstep]
  refine ⟨fun op a native e g done => ?_, fun op a b native e g done => ?_, fun a b c native e g done => ?_,
    fun op a b x g done => ?_, fun items e g done => ?_, fun value e g done => ?_, fun type payload e g done => ?_⟩
  · have hf := Heap.dispatch_fails (·.unary host inner a) wf native fun f _ _ => Handler.unary_fails host inner f a
    exact .of_eq host (hf.of_ok done e rfl)
  · have hf := Heap.dispatch_fails (·.binary host inner a b) wf native fun f _ wf => Handler.binary_fails host inner wf f a b
    exact .of_eq host (hf.of_ok done e rfl)
  · have hf := Heap.dispatch_fails (·.ternary host inner a b c) wf native fun f _ _ => Handler.ternary_fails host inner f a b c
    exact .of_eq host (hf.of_ok done e rfl)
  · exact .of_eq host ((compareConsuming_releases host n op a b h).of_ok done)
  · rw [host.performAll_release]
    exact congrArg Except.ok ((Heap.construct_fails .tuple (.tuple items) h).of_ok done e rfl).symm
  · exact (Heap.short_fails value h).of_ok done e rfl
  · exact (Heap.allocate_fails type payload h).of_ok done e rfl

/-- The heap that goes with a known answer. -/
theorem exists_heap_of_answer {x : Except Fault (α × Heap κ)} {a : α} (hx : x.toOption.map Prod.fst = some a) :
    ∃ g, x = .ok (a, g) := by
  cases x with
  | error f => cases hx
  | ok p =>
    obtain ⟨b, g⟩ := p
    cases hx
    exact ⟨g, rfl⟩

namespace Stock

/-- There is room for two blocks only, and no short is interned. -/
def crowdedConfig : Config := { limits := { maxAllocations := some 2 }, shortRange := ⟨0, 0⟩ }

/-- The largest short, and a tuple that owns it; there is no room for more. -/
def crowding : List (Request Name) := [.short 2147483647, .acquire ⟨3⟩, .tuple [⟨3⟩], .acquire ⟨4⟩, .none]

/-- The answer to a request that comes next. -/
def next? (r : Request Name) (h : Heap Name) : Option r.Answer := ((host 8).perform r h).toOption.map Prod.fst

/-- Answers to requests that could come next; whether the first two are left to the heap. -/
structure Outlook where
  native : Bool × Bool
  concat : Option (Except RunError Ref)
  power : Option (Except RunError Ref)
  compare : Option (Except RunError Bool)
  tuple : Option (Except RunError Ref)
  deriving DecidableEq

def outlook (h : Heap Name) : Outlook where
  native := (h.native BinaryOp.concat.symbol (·.binary? .concat) [⟨4⟩, ⟨4⟩],
    h.native powerSymbol (·.power?) [⟨3⟩, ⟨3⟩, Interned.none])
  concat := next? (.binary .concat ⟨4⟩ ⟨4⟩) h
  power := next? (.power ⟨3⟩ ⟨3⟩ Interned.none) h
  compare := next? (.compare .equal ⟨4⟩ ⟨4⟩) h
  tuple := next? (.tuple [⟨4⟩, ⟨3⟩]) h

end Stock

/-- Where there is no room, a tuple joined with itself, a power that is too large and
a new tuple fail, and a comparison does not. -/
theorem failure_releases_crowded : ∃ h g₁ g₂ g₃ g₄ : Heap Stock.Name,
    Run (Stock.host 8) 0 (.ofConfig Stock.crowdedConfig) 0 h {⟨3⟩, ⟨4⟩, ⟨4⟩, Interned.none} ∧
    ((Stock.host 8).perform (.binary .concat ⟨4⟩ ⟨4⟩) h = .ok (.error (.exhausted (.allocations 2 3)), g₁) ∧
      (Stock.host 8).Releases [⟨4⟩, ⟨4⟩] h g₁) ∧
    ((Stock.host 8).perform (.power ⟨3⟩ ⟨3⟩ Interned.none) h = .ok (.error (.overflow powerSymbol), g₂) ∧
      (Stock.host 8).Releases [⟨3⟩, ⟨3⟩, Interned.none] h g₂) ∧
    ((Stock.host 8).perform (.compare .equal ⟨4⟩ ⟨4⟩) h = .ok (.ok true, g₃) ∧
      (Stock.host 8).Releases [⟨4⟩, ⟨4⟩] h g₃) ∧
    ((Stock.host 8).perform (.tuple [⟨4⟩, ⟨3⟩]) h = .ok (.error (.exhausted (.allocations 2 3)), g₄) ∧
      (Stock.host 8).performAll [.release ⟨4⟩, .release ⟨3⟩] h = .ok g₄) := by
  have hplay : ((Stock.host 8).play 0 Stock.crowding (.ofConfig Stock.crowdedConfig) 0).map
      (fun p => (p.2, Stock.outlook p.1)) =
      some ({⟨3⟩, ⟨4⟩, ⟨4⟩, Interned.none},
        { native := (true, true), concat := some (.error (.exhausted (.allocations 2 3))),
          power := some (.error (.overflow powerSymbol)), compare := some (.ok true),
          tuple := some (.error (.exhausted (.allocations 2 3))) }) := by decide +kernel
  obtain ⟨h, run, hseen⟩ := Run.of_play Stock.outlook (Multiset.zero_le _) hplay
  obtain ⟨native, answer₁, answer₂, answer₃, answer₄⟩ := Stock.Outlook.mk.inj hseen
  obtain ⟨native₁, native₂⟩ := Prod.mk.inj native
  obtain ⟨g₁, done₁⟩ := exists_heap_of_answer answer₁
  obtain ⟨g₂, done₂⟩ := exists_heap_of_answer answer₂
  obtain ⟨g₃, done₃⟩ := exists_heap_of_answer answer₃
  obtain ⟨g₄, done₄⟩ := exists_heap_of_answer answer₄
  obtain ⟨-, binary, power, compare, tuple, -⟩ := failure_releases run.reached
  exact ⟨h, g₁, g₂, g₃, g₄, run, ⟨done₁, binary .concat _ _ native₁ _ _ done₁⟩,
    ⟨done₂, power _ _ _ native₂ _ _ done₂⟩, ⟨done₃, compare .equal _ _ _ _ done₃⟩, ⟨done₄, tuple _ _ _ done₄⟩⟩

end CountedHeap
