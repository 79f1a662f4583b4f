/-
# Code over requests

A piece of code is a tree: it is done, or it makes a request and goes on with
the answer. The tree says which requests are made in which order and nothing
about what they do; `run` gives it a meaning in any monad that can perform them.
-/
namespace CountedHeap

/-- Code that makes requests `Op`, each answered by a value of its own type. -/
inductive Code (Op : Type) (Answer : Op → Type) (α : Type) where
  | done (value : α)
  | call (op : Op) (next : Answer op → Code Op Answer α)

namespace Code

variable {Op : Type} {Answer : Op → Type} {α β : Type}

/-- One request, and its answer. -/
def request (op : Op) : Code Op Answer (Answer op) := .call op .done

def bind : Code Op Answer α → (α → Code Op Answer β) → Code Op Answer β
  | .done a, f => f a
  | .call op next, f => .call op fun x => (next x).bind f

instance : Monad (Code Op Answer) where
  pure := .done
  bind := Code.bind

/-- Runs code by performing its requests one after the other. -/
def run {m : Type → Type} [Monad m] (perform : (op : Op) → m (Answer op)) : Code Op Answer α → m α
  | .done a => pure a
  | .call op next => perform op >>= fun x => (next x).run perform

end Code

end CountedHeap
