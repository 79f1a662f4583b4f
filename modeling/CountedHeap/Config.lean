/-
# Configuration

What a heap is built from: the limits of its tracker, the sizes whose blocks are
parked, the shorts that are interned, and the number of slots reserved up front
(which no operation shows).
-/
import CountedHeap.Budget
import CountedHeap.Word

namespace CountedHeap

/-- The shorts from `start` up to, not including, `stop`. It is empty when `stop ≤ start`. -/
structure ShortRange where
  start : Int32
  stop : Int32
  deriving DecidableEq, Repr, Inhabited

namespace ShortRange

/-- Number of values. -/
def count (r : ShortRange) : Nat := (r.stop.toInt - r.start.toInt).toNat

/-- `start..stop` -/
def text (r : ShortRange) : String := toString r.start.toInt ++ ".." ++ toString r.stop.toInt

end ShortRange

structure PoolConfig where
  sizeClasses : List Nat := [16, 24]
  maxPerClass : Option Nat := none
  deriving DecidableEq, Repr, Inhabited

/-- No size is parked. -/
def PoolConfig.disabled : PoolConfig := { sizeClasses := [] }

structure Config where
  limits : Limits := .standard
  pool : PoolConfig := {}
  shortRange : ShortRange := ⟨0, 256⟩
  initialCapacity : Nat := 512
  deriving DecidableEq, Repr, Inhabited

namespace Config

/-- The most shorts that are interned. -/
def maxInterned : Nat := 65536

/-- Where a range that begins at `start` is cut: after `maxInterned` values, or at the last short. -/
def cutAfter (start : Int32) : Int32 :=
  (Word.ofInt? (start.toInt + maxInterned)).getD Int32.maxValue

/-- The range that is interned. -/
def internedRange (c : Config) : ShortRange :=
  if cutAfter c.shortRange.start < c.shortRange.stop then
    ⟨c.shortRange.start, cutAfter c.shortRange.start⟩
  else c.shortRange

/-- The log of building a heap: one line if the range had to be cut. -/
def warnings (c : Config) : List String :=
  if cutAfter c.shortRange.start < c.shortRange.stop then
    ["WARN objrt::config small_int_range " ++ c.shortRange.text ++ " exceeds " ++ toString maxInterned ++
      " values, interning " ++ c.internedRange.text]
  else []

end Config

end CountedHeap
