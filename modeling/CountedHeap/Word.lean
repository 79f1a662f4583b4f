/-
# Arithmetic on words

Shorts are 32-bit signed integers. Arithmetic is exact or it fails: a result
that does not fit is `none`. Division rounds toward negative infinity and a
remainder has the sign of its divisor. All of it runs on machine words; modular
power uses 64-bit words for its products.

Counts have 64 bits. They are added without a check, and subtracted only where
the result is none too small.
-/
namespace CountedHeap
namespace Word

/-- The word for `n`, if `n` fits in 32 bits. -/
def ofInt? (n : Int) : Option Int32 :=
  if -2147483648 ≤ n ∧ n ≤ 2147483647 then some (Int32.ofInt n) else none

def add? (x y : Int32) : Option Int32 := ofInt? (x.toInt + y.toInt)

def sub? (x y : Int32) : Option Int32 := ofInt? (x.toInt - y.toInt)

def mul? (x y : Int32) : Option Int32 := ofInt? (x.toInt * y.toInt)

def neg? (x : Int32) : Option Int32 := ofInt? (-x.toInt)

def abs? (x : Int32) : Option Int32 := ofInt? x.toInt.natAbs

/-- The quotient rounded down, for `y ≠ 0`. The machine's quotient is cut toward
zero, so it is one too large when the division is not exact and the signs
differ. Only the least word divided by -1 does not fit. -/
def floorDiv? (x y : Int32) : Option Int32 :=
  if x = Int32.minValue ∧ y = -1 then none
  else
    let q := x / y
    some (if x % y ≠ 0 ∧ decide (x < 0) ≠ decide (y < 0) then q - 1 else q)

/-- The remainder of the division rounded down, for `y ≠ 0`. -/
def floorMod (x y : Int32) : Int32 :=
  let r := x % y
  if r ≠ 0 ∧ decide (r < 0) ≠ decide (y < 0) then r + y else r

/-- `acc * base ^ e` by repeated squaring, stopping at the first product that
does not fit. The last factor is multiplied in without another squaring, so a
power that fits is always found. -/
def powLoop (acc base : Int32) (e : Nat) : Option Int32 :=
  if e = 0 then some acc
  else if e = 1 then mul? acc base
  else do
    let acc ← if e % 2 = 1 then mul? acc base else some acc
    let base ← mul? base base
    powLoop acc base (e / 2)
termination_by e

/-- `base ^ e`, if it fits. -/
def pow? (base : Int32) (e : Nat) : Option Int32 := powLoop 1 base e

/-- `acc * base ^ e` modulo `m` by repeated squaring, for `0 ≤ acc, base < m`. -/
def powModLoop (m acc base : Int64) (e : Nat) : Int64 :=
  if e = 0 then acc
  else powModLoop m (if e % 2 = 1 then acc * base % m else acc) (base * base % m) (e / 2)
termination_by e

/-- `base ^ e` modulo `modulus`, with the sign of the modulus, for `modulus ≠ 0`. -/
def powMod (base : Int32) (e : Nat) (modulus : Int32) : Int32 :=
  let m := modulus.toInt64.abs
  let b := base.toInt64 % m
  let r := powModLoop m (1 % m) (if b < 0 then b + m else b) e
  (ofInt? (if modulus < 0 ∧ r ≠ 0 then r - m else r).toInt).getD 0

/-! ### Counts of 64 bits -/

/-- A sum as a word of 64 bits holds it: what is carried out of the word is lost. -/
def wrapAdd (m n : Nat) : Nat := (UInt64.ofNat m + UInt64.ofNat n).toNat

theorem wrapAdd_eq_mod (m n : Nat) : wrapAdd m n = (m + n) % UInt64.size := by
  unfold wrapAdd
  rw [UInt64.toNat_add, UInt64.toNat_ofNat', UInt64.toNat_ofNat', ← Nat.add_mod]

theorem wrapAdd_le (m n : Nat) : wrapAdd m n ≤ m + n := by
  rw [wrapAdd_eq_mod]
  exact Nat.mod_le _ _

theorem wrapAdd_eq_iff {m n : Nat} : wrapAdd m n = m + n ↔ m + n < UInt64.size := by
  rw [wrapAdd_eq_mod]
  exact Nat.mod_eq_iff_lt (by decide)

/-- A count as a word with a sign, if it is not too large. -/
def signed? (n : Nat) : Option Int64 := if n ≤ 9223372036854775807 then some (Int64.ofNat n) else none

/-- `after - before` as a word with a sign. The size of the difference comes first; one that is too large
becomes the bound on its side. -/
def difference (before after : Nat) : Int64 :=
  if before ≤ after then (signed? (after - before)).getD Int64.maxValue
  else (signed? (before - after)).elim Int64.minValue (-·)

end Word
end CountedHeap
