/-
# Heaps that differ in where their objects are

Which slot an object gets depends on the blocks that are parked and on the slots
that are vacant, so two heaps that were asked the same may have the same objects
in different slots. `Mirror σ h h'` says that they have: the object of `h` at `r`
is the object of `h'` at `σ r`, with its items renamed, and one is there if the
other is. The interned objects are where they always are.

What can be read of a heap is then the same for corresponding references, down to
the errors and the faults, for references to dead slots too.

Key definitions: `Object.map`, `Query.map`, `Request.map`, `Mirror`.
-/
import Mathlib.Logic.Equiv.Basic
import CountedHeap.Proofs.Discipline

namespace CountedHeap

variable {κ : Role → Type} {α : Type}

/-! ### Renaming -/

def Payload.map (f : Ref → Ref) : Payload → Payload
  | .tuple items => .tuple (items.map f)
  | payload => payload

/-- The same object with its items renamed. -/
def Object.map (f : Ref → Ref) (o : Object) : Object := { o with payload := o.payload.map f }

theorem Payload.children_map (f : Ref → Ref) (p : Payload) : (p.map f).children = p.children.map f := by
  cases p <;> rfl

theorem Payload.map_congr {f g : Ref → Ref} {p : Payload} (h : ∀ a ∈ p.children, f a = g a) : p.map f = p.map g := by
  cases p with
  | tuple items => exact congrArg Payload.tuple (List.map_congr_left h)
  | none | bool | short | host => rfl

theorem Object.map_congr {f g : Ref → Ref} {o : Object} (h : ∀ a ∈ o.payload.children, f a = g a) :
    o.map f = o.map g := by
  unfold map
  rw [Payload.map_congr h]

theorem Object.map_id (o : Object) : o.map id = o := by
  obtain ⟨_, _, _, _, _, payload⟩ := o
  cases payload with
  | tuple items => simp only [map, Payload.map, List.map_id]
  | none | bool | short | host => rfl

namespace Query

/-- The same query about other references. -/
def map (f : Ref → Ref) : Query → Query
  | .object a => .object (f a)
  | .typeName a => .typeName (f a)
  | .isTrue a => .isTrue (f a)
  | .length a => .length (f a)
  | .compare op a b => .compare op (f a) (f b)

/-- The same answer with other references in it. -/
def answer (f g : Ref → Ref) : (q : Query) → q.Answer → (q.map f).Answer
  | .object _, o => o.map g
  | .typeName _, x => x
  | .isTrue _, x => x
  | .length _, x => x
  | .compare _ _ _, x => x

end Query

namespace Request

/-- The same request with other references. -/
def map (f : Ref → Ref) : Request κ → Request κ
  | .none => .none
  | .bool value => .bool value
  | .short value => .short value
  | .allocate type payload => .allocate type payload
  | .tuple items => .tuple (items.map f)
  | .item a index => .item (f a) index
  | .acquire a => .acquire (f a)
  | .release a => .release (f a)
  | .tryRelease a => .tryRelease (f a)
  | .unary op a => .unary op (f a)
  | .binary op a b => .binary op (f a) (f b)
  | .power a b c => .power (f a) (f b) (f c)
  | .compare op a b => .compare op (f a) (f b)
  | .fib a => .fib (f a)
  | .register d => .register d
  | .enterRecursion => .enterRecursion
  | .leaveRecursion => .leaveRecursion
  | .inspect q => .inspect (q.map f)

/-- The same answer with other references in it. -/
def answer (f g : Ref → Ref) : (r : Request κ) → r.Answer → (r.map f).Answer
  | .none, a | .bool _, a | .acquire _, a => g a
  | .short _, x | .allocate _ _, x | .tuple _, x | .item _ _, x => x.map g
  | .unary _ _, x | .binary _ _ _, x | .power _ _ _, x | .fib _, x => x.map g
  | .release _, x | .leaveRecursion, x => x
  | .tryRelease _, x | .enterRecursion, x => x
  | .compare _ _ _, x => x
  | .register _, x => x
  | .inspect q, x => q.answer f g x

theorem outcome_map (g : Ref → Ref) (x : Except RunError Ref) :
    outcome 0 ({·}) (x.map g) = (outcome 0 ({·}) x).map g := by
  cases x with
  | ok a => exact (Multiset.map_singleton g a).symm
  | error e => rfl

/-- A renamed answer brings the renamed references. -/
theorem makes_answer (f g : Ref → Ref) (r : Request κ) (x : r.Answer) :
    (r.map f).makes (r.answer f g x) = (r.makes x).map g := by
  cases r with
  | none | bool | acquire => exact (Multiset.map_singleton g x).symm
  | short | allocate | tuple | item | unary | binary | power | fib => exact outcome_map g x
  | release | tryRelease | compare | register | enterRecursion | leaveRecursion | inspect => rfl

end Request

/-! ### The search for a handler -/

/-- A reading that goes on with what was looked up. -/
theorem look_bind (a : α) (f : α → ReadM β) : (ExceptT.lift (Except.ok a) >>= f : ReadM β) = f a := rfl

namespace Heap

variable {h : Heap κ} {op : String} {find : Descriptor κ → Option α} {seen : List String} {a : Ref}
  {operands : List Ref}

theorem resolve_found {d : Descriptor κ} {f : α} (ht : h.typeOf a = .ok d) (hf : find d = some f) :
    h.resolve op find seen (a :: operands) = .ok (.ok (f, .dispatch op d.name seen.length)) := by
  rw [resolve, ht]
  refine (look_bind d _).trans ?_
  simp only [hf]
  rfl

theorem resolve_passed {d : Descriptor κ} (ht : h.typeOf a = .ok d) (hf : find d = Option.none) :
    h.resolve op find seen (a :: operands) = h.resolve op find (seen ++ [d.name]) operands := by
  rw [resolve, ht]
  refine (look_bind d _).trans ?_
  simp only [hf]

theorem resolve_fault {e : Fault} (ht : h.typeOf a = .error e) : h.resolve op find seen (a :: operands) = .error e := by
  rw [resolve, ht]
  rfl

end Heap

/-! ### Heaps that correspond -/

/-- No limit on blocks or bytes. -/
def Tracker.Roomy : Tracker → Prop
  | .unmetered => True
  | .metered limits _ _ => limits.maxAllocations = none ∧ limits.maxMemory = none

/-- The objects of `h'` are those of `h`, in the slots that `σ` says. -/
structure Mirror (σ : Equiv.Perm Ref) (h h' : Heap κ) : Prop where
  objects : ∀ r, h'.object? (σ r) = (h.object? r).map (Object.map σ)
  types : h'.types = h.types
  interned : h'.interned = h.interned
  fixed : ∀ r : Ref, r.index < h.interned.count → σ r = r
  depth : h'.depth = h.depth
  roomy : h.ledger.tracker.Roomy ∧ h'.ledger.tracker.Roomy
  maxDepth : h'.ledger.tracker.maxDepth = h.ledger.tracker.maxDepth

namespace Mirror

variable {σ : Equiv.Perm Ref} {h h' : Heap κ} (m : Mirror σ h h')
include m

theorem get (a : Ref) : h'.get (σ a) = (h.get a).map (Object.map σ) := by
  unfold Heap.get
  rw [m.objects]
  cases h.object? a <;> rfl

theorem typeOf (a : Ref) : h'.typeOf (σ a) = h.typeOf a := by
  unfold Heap.typeOf
  rw [m.get, m.types]
  cases h.get a <;> rfl

theorem typeName (a : Ref) : h'.typeName (σ a) = h.typeName a := by
  unfold Heap.typeName
  rw [m.typeOf]

theorem shortValue (op : String) (a : Ref) : h'.shortValue op (σ a) = h.shortValue op a := by
  unfold Heap.shortValue
  rw [m.get, m.typeName]
  cases h.get a with
  | error f => rfl
  | ok o =>
    obtain ⟨_, _, _, _, _, payload⟩ := o
    cases payload <;> rfl

theorem tupleItems (op : String) (a : Ref) :
    h'.tupleItems op (σ a) = Except.map (Except.map (List.map σ)) (h.tupleItems op a) := by
  unfold Heap.tupleItems
  rw [m.get, m.typeName]
  cases h.get a with
  | error f => rfl
  | ok o =>
    obtain ⟨_, _, _, _, _, payload⟩ := o
    cases payload with
    | tuple items => rfl
    | none | bool | short | host => cases h.typeName a <;> rfl

theorem tupleItem (op : String) (a : Ref) (index : Int) :
    h'.tupleItem op (σ a) index = Except.map (Except.map σ) (h.tupleItem op a index) := by
  unfold Heap.tupleItem
  rw [m.tupleItems]
  rcases h.tupleItems op a with f | e | items
  · rfl
  · rfl
  · -- the position is counted in lists of the same length
    simp only [Except.map, bind, ExceptT.bind, ExceptT.mk, ExceptT.bindCont, Except.bind, List.length_map]
    generalize (if index < 0 then index + (items.length : Int) else index) = position
    by_cases hp : position < 0
    · rw [if_pos hp, if_pos hp]
      rfl
    · rw [if_neg hp, if_neg hp, List.getElem?_map]
      cases items[position.toNat]? <;> rfl

theorem shortValue? (a : Ref) : h'.shortValue? (σ a) = h.shortValue? a := by
  unfold Heap.shortValue?
  rw [m.get]
  cases h.get a with
  | error f => rfl
  | ok o =>
    obtain ⟨_, _, _, _, _, payload⟩ := o
    cases payload <;> rfl

theorem boolValue? (a : Ref) : h'.boolValue? (σ a) = h.boolValue? a := by
  unfold Heap.boolValue?
  rw [m.get]
  cases h.get a with
  | error f => rfl
  | ok o =>
    obtain ⟨_, _, _, _, _, payload⟩ := o
    cases payload <;> rfl

theorem tupleItems? (a : Ref) : h'.tupleItems? (σ a) = (h.tupleItems? a).map (Option.map (List.map σ)) := by
  unfold Heap.tupleItems?
  rw [m.get]
  cases h.get a with
  | error f => rfl
  | ok o =>
    obtain ⟨_, _, _, _, _, payload⟩ := o
    cases payload <;> rfl

/-- An operator goes to the same operand. -/
theorem resolve (op : String) (find : Descriptor κ → Option α) : ∀ (operands : List Ref) (seen : List String),
    h'.resolve op find seen (operands.map σ) = h.resolve op find seen operands
  | [], _ => rfl
  | a :: operands, seen => by
    have hsame := m.typeOf a
    rw [List.map_cons]
    cases ht : h.typeOf a with
    | error f => rw [Heap.resolve_fault ht, Heap.resolve_fault (hsame.trans ht)]
    | ok d =>
      cases hf : find d with
      | some f => rw [Heap.resolve_found ht hf, Heap.resolve_found (hsame.trans ht) hf]
      | none =>
        rw [Heap.resolve_passed ht hf, Heap.resolve_passed (hsame.trans ht) hf]
        exact resolve op find operands (seen ++ [d.name])

end Mirror

end CountedHeap
