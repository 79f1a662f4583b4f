/-
# How a computation ends

`Ends E Q x` says that `x` has a result for which `Q` holds, or that it stopped
at a fault that `E` admits. With `E` always true it is what holds if the
computation ends well; with a small `E` it also says which faults cannot happen.
Computations on heaps are put together from parts by the rules below, so that no
later proof opens the monads.
-/
import CountedHeap.Heap.Allocate

namespace CountedHeap

/-- `x` ends with a result of which `Q` holds, or in a fault of which `E` does. -/
def Ends {α : Type} (E : Fault → Prop) (Q : α → Prop) : Except Fault α → Prop
  | .ok a => Q a
  | .error f => E f

namespace Ends

variable {κ : Role → Type} {α β : Type} {E : Fault → Prop}

theorem of_ok {Q : α → Prop} {x : Except Fault α} {a : α} (h : Ends E Q x) (hx : x = .ok a) : Q a := by
  rw [hx] at h
  exact h

theorem of_error {Q : α → Prop} {x : Except Fault α} {f : Fault} (h : Ends E Q x) (hx : x = .error f) :
    E f := by
  rw [hx] at h
  exact h

theorem mono {P Q : α → Prop} {x : Except Fault α} (h : Ends E P x) (hpq : ∀ a, P a → Q a) : Ends E Q x := by
  cases x with
  | ok a => exact hpq a h
  | error f => exact h

/-- More faults may be admitted. -/
theorem weaken {E' : Fault → Prop} {Q : α → Prop} {x : Except Fault α} (h : Ends E Q x) (he : ∀ f, E f → E' f) :
    Ends E' Q x := by
  cases x with
  | ok a => exact h
  | error f => exact he f h

/-- What can only end well has a result. -/
theorem exists_ok {Q : α → Prop} {x : Except Fault α} (h : Ends E Q x) (excluded : ∀ f, ¬ E f) :
    ∃ a, x = .ok a ∧ Q a := by
  cases x with
  | ok a => exact ⟨a, rfl, h⟩
  | error f => exact absurd h (excluded f)

/-- A computation ends somehow. -/
theorem always (x : Except Fault α) : Ends (fun _ => True) (fun _ => True) x := by
  cases x <;> trivial

/-- A computation ends with the result it has. -/
theorem self {x : Except Fault α} (h : ∀ f, x = .error f → E f) : Ends E (fun a => x = .ok a) x := by
  cases x with
  | ok a => exact rfl
  | error f => exact h f rfl

/-- A computation has the result of which it is said. -/
theorem remember {Q : α → Prop} {x : Except Fault α} (h : Ends E Q x) : Ends E (fun a => x = .ok a ∧ Q a) x := by
  cases x with
  | ok a => exact ⟨rfl, h⟩
  | error e => exact h

/-- One part after the other. -/
theorem bind {P : α → Prop} {Q : β → Prop} {x : Except Fault α} {f : α → Except Fault β}
    (hx : Ends E P x) (hf : ∀ a, P a → Ends E Q (f a)) : Ends E Q (x >>= f) := by
  cases x with
  | ok a => exact hf a hx
  | error e => exact hx

/-- One part after another whose result is known. -/
theorem bindOk {Q : β → Prop} {x : Except Fault α} {a : α} {f : α → Except Fault β} (hx : x = .ok a)
    (hf : Ends E Q (f a)) : Ends E Q (x >>= f) := by
  rw [hx]
  exact hf

/-- One operation on a heap after the other. -/
theorem heapBind {P : α × Heap κ → Prop} {Q : β × Heap κ → Prop} {m : HeapM κ α} {f : α → HeapM κ β}
    {h : Heap κ} (hm : Ends E P (m h)) (hf : ∀ a g, P (a, g) → Ends E Q (f a g)) : Ends E Q ((m >>= f) h) :=
  bind hm fun p hp => hf p.1 p.2 hp

/-- One operation that may fail after the other; a failure ends them. -/
theorem runBind {P : Except RunError α × Heap κ → Prop} {Q : Except RunError β × Heap κ → Prop}
    {m : RunM κ α} {f : α → RunM κ β} {h : Heap κ} (hm : Ends E P (m h))
    (ok : ∀ a g, P (.ok a, g) → Ends E Q (f a g)) (error : ∀ e g, P (.error e, g) → Q (.error e, g)) :
    Ends E Q ((m >>= f) h) := by
  refine bind (β := Except RunError β × Heap κ) hm fun p hp => ?_
  obtain ⟨result, g⟩ := p
  cases result with
  | ok a => exact ok a g hp
  | error e => exact error e g hp

/-- An operation that cannot fail among those that may. -/
theorem lift {Q : Except RunError α × Heap κ → Prop} {m : HeapM κ α} {h : Heap κ}
    (hm : Ends E (fun p => Q (.ok p.1, p.2)) (m h)) : Ends E Q ((ExceptT.lift m : RunM κ α) h) :=
  bind (β := Except RunError α × Heap κ) hm fun _ hp => hp

/-- One reading that may fail after the other. -/
theorem readBind {P : Except RunError α → Prop} {Q : Except RunError β → Prop} {m : ReadM α} {f : α → ReadM β}
    (hm : Ends E P m) (ok : ∀ a, P (.ok a) → Ends E Q (f a)) (error : ∀ e, P (.error e) → Q (.error e)) :
    Ends E Q (m >>= f : ReadM β) := by
  refine bind (α := Except RunError α) (β := Except RunError β) hm fun result hp => ?_
  cases result with
  | ok a => exact ok a hp
  | error e => exact error e hp

/-- A reading that cannot fail, before one that may. -/
theorem lookBind {P : α → Prop} {Q : Except RunError β → Prop} {x : Except Fault α} {f : α → ReadM β}
    (hx : Ends E P x) (hf : ∀ a, P a → Ends E Q (f a)) : Ends E Q (ExceptT.lift x >>= f : ReadM β) := by
  cases x with
  | ok a => exact hf a hx
  | error e => exact hx

end Ends

end CountedHeap
