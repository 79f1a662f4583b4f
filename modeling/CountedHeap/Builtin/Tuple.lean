/-
# Handlers of tuples

A tuple owns one reference to each of its items. Concatenation shares the items
of both operands, a subscript gives a new reference to one of them, and equality
goes through the items in pairs.
-/
import CountedHeap.Heap.Allocate

namespace CountedHeap
namespace Heap

variable {κ : Role → Type}

namespace Tuple

/-- New references to all items, in order. -/
def share : List Ref → HeapM κ Unit
  | [] => return ()
  | r :: rest => do
    let _ ← newRef r
    share rest

def concat (a b : Ref) : RunM κ Ref :=
  consuming [a, b] do
    let xs ← reading (·.tupleItems BinaryOp.concat.symbol a)
    let ys ← reading (·.tupleItems BinaryOp.concat.symbol b)
    ExceptT.lift (share (xs ++ ys))
    tuple (xs ++ ys)

/-- The index is looked at before the tuple. -/
def subscript (a b : Ref) : RunM κ Ref :=
  consuming [a, b] do
    let index ← reading (·.shortValue "short" b)
    item BinaryOp.subscript.symbol a index.toInt

end Tuple

variable (h : Heap κ)

/-- The items of an object that may be something else. -/
def tupleItems? (a : Ref) : Except Fault (Option (List Ref)) := do
  let o ← h.get a
  match o.payload with
  | .tuple items => return some items
  | _ => return Option.none

/-- Number of items; another object has none. -/
def tupleLength (a : Ref) : Except Fault Nat := do
  let items ← h.tupleItems? a
  return items.elim 0 List.length

/-- Whether items are equal in pairs, up to the first pair that differs or cannot
be compared. An object equals itself without being looked at. -/
def itemsEqual (equal : Ref → Ref → Except Fault (Except RunError Bool)) :
    List Ref → List Ref → Except Fault (Except RunError Bool)
  | x :: xs, y :: ys =>
    if x = y then itemsEqual equal xs ys
    else do
      match ← equal x y with
      | .ok true => itemsEqual equal xs ys
      | answer => return answer
  | _, _ => return .ok true

/-- A tuple equals only a tuple of the same length with equal items. -/
def tupleEqual (equal : Ref → Ref → Except Fault (Except RunError Bool)) (a b : Ref) :
    Except Fault (Except RunError Bool) := do
  let xs ← h.tupleItems? a
  let ys ← h.tupleItems? b
  match xs, ys with
  | some xs, some ys => if xs.length = ys.length then itemsEqual equal xs ys else return .ok false
  | _, _ => return .ok false

end Heap
end CountedHeap
