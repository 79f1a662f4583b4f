/-
# Fibonacci as client code

`fib n` is 1 for `n ≤ 1` and `fib (n - 1) + fib (n - 2)` otherwise, computed only
through requests: every comparison, subtraction and sum is dispatched, every
intermediate value is an object, and each call is one level of recursion deeper.
-/
import CountedHeap.Request

namespace CountedHeap
namespace Routine

variable {κ : Role → Type}

/-- `n - k`, keeping `n`. -/
def minus (n : Ref) (k : Int32) : Routine κ Ref := do
  let k ← short k
  let n ← acquire n
  binary .subtract n k

/-- One level of the recursion, keeping `n`. -/
def fibLevel (n : Ref) : Routine κ Ref := do
  let one ← short 1
  let copy ← acquire n
  if ← compare .lessOrEqual copy one then short 1
  else
    let left ← fib (← minus n 1)
    let right ← tryCatch (do fib (← minus n 2)) fun e => do
      release left
      throw e
    binary .add left right

/-- Consumes `n`. -/
def fibonacci (n : Ref) : Routine κ Ref := recursing [n] (consuming [n] (fibLevel n))

end Routine
end CountedHeap
