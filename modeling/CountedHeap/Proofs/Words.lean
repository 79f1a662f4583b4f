/-
# Arithmetic on words is exact

Shorts are words of 32 bits, and what is done with them is said in integers here. A sum,
a product or a power is found exactly if it fits; above all, repeated squaring makes no
product that the power does not force, so that it fails only if the power itself does not
fit (`Word.fits_round`). The quotient and the remainder are those of a division rounded
down, and every step that corrects what the machine gives stays in 32 bits.

Modular power works with words of 64 bits. All numbers in its loop are below the size of
the modulus, so no product is out of range (`Word.IsModulus.isResidue_round`), and what it
comes to is a short.

Key definitions: `Word.Fits`, `Word.FitsWide`, `Word.PowModRound`.
Key theorems: `Word.toInt_floorMod`, `Word.floorDiv?_of_fits`, `Word.pow?_eq`,
`Word.toInt_widePow`.
-/
import CountedHeap.Word
import Mathlib.Data.Int.ModEq
import Mathlib.Data.Rat.Floor
import Mathlib.Tactic.Linarith

namespace CountedHeap
namespace Word

/-- The numbers of 32 bits. -/
def Fits (n : Int) : Prop := -2147483648 ≤ n ∧ n ≤ 2147483647

/-- The numbers of 64 bits. -/
def FitsWide (n : Int) : Prop := -9223372036854775808 ≤ n ∧ n ≤ 9223372036854775807

instance (n : Int) : Decidable (Fits n) := inferInstanceAs (Decidable (_ ∧ _))

theorem fits_toInt (x : Int32) : Fits x.toInt := ⟨x.le_toInt, Int.le_of_lt_add_one x.toInt_lt⟩

theorem ofInt?_eq_none_iff {n : Int} : ofInt? n = none ↔ ¬ Fits n := by
  unfold ofInt? Fits
  split <;> simp_all

theorem ofInt?_of_fits {n : Int} (fits : Fits n) : ∃ v, ofInt? n = some v ∧ v.toInt = n :=
  ⟨_, if_pos fits, Int32.toInt_ofInt_of_le fits.1 (Int.lt_of_le_of_lt fits.2 (by decide))⟩

theorem toInt_of_ofInt? {n : Int} {v : Int32} (found : ofInt? n = some v) : v.toInt = n := by
  by_cases fits : Fits n
  · obtain ⟨w, found', hw⟩ := ofInt?_of_fits fits
    rw [found] at found'
    cases found'
    exact hw
  · rw [ofInt?_eq_none_iff.mpr fits] at found
    cases found

theorem ofInt?_toInt (x : Int32) : ofInt? x.toInt = some x := by
  obtain ⟨v, found, hv⟩ := ofInt?_of_fits (fits_toInt x)
  rw [found, Int32.toInt_inj.mp hv]

/-! ### What fits is exact -/

section Machine

variable {x y : Int32} {a b : Int64}

theorem toInt_add (fits : Fits (x.toInt + y.toInt)) : (x + y).toInt = x.toInt + y.toInt := by
  rw [Int32.toInt_add]
  exact Int.bmod_eq_of_le fits.1 (Int.lt_of_le_of_lt fits.2 (by decide))

theorem toInt_sub (fits : Fits (x.toInt - y.toInt)) : (x - y).toInt = x.toInt - y.toInt := by
  rw [Int32.toInt_sub]
  exact Int.bmod_eq_of_le fits.1 (Int.lt_of_le_of_lt fits.2 (by decide))

theorem wide_add (fits : FitsWide (a.toInt + b.toInt)) : (a + b).toInt = a.toInt + b.toInt := by
  rw [Int64.toInt_add]
  exact Int.bmod_eq_of_le fits.1 (Int.lt_of_le_of_lt fits.2 (by decide))

theorem wide_sub (fits : FitsWide (a.toInt - b.toInt)) : (a - b).toInt = a.toInt - b.toInt := by
  rw [Int64.toInt_sub]
  exact Int.bmod_eq_of_le fits.1 (Int.lt_of_le_of_lt fits.2 (by decide))

theorem wide_mul (fits : FitsWide (a.toInt * b.toInt)) : (a * b).toInt = a.toInt * b.toInt := by
  rw [Int64.toInt_mul]
  exact Int.bmod_eq_of_le fits.1 (Int.lt_of_le_of_lt fits.2 (by decide))

theorem toInt_ne_zero : x.toInt ≠ 0 ↔ x ≠ 0 := by
  rw [ne_eq, ne_eq, ← Int32.toInt_inj]
  rfl

theorem decide_neg_ne :
    decide (x < 0) ≠ decide (y < 0) ↔ x.toInt < 0 ∧ 0 ≤ y.toInt ∨ 0 ≤ x.toInt ∧ y.toInt < 0 := by
  rw [ne_eq, decide_eq_decide, Int32.lt_iff_toInt_lt, Int32.lt_iff_toInt_lt]
  show ¬ (x.toInt < 0 ↔ y.toInt < 0) ↔ _
  omega

end Machine

/-! ### Division rounded down -/

section Integers

variable {n d q r : Int}

/-- A remainder on the divisor's side of zero, and smaller than it, is that of a division rounded down. -/
theorem floor_of_parts (whole : d * q + r = n) (small : 0 ≤ r ∧ r < d ∨ d < r ∧ r ≤ 0) :
    n.fdiv d = q ∧ n.fmod d = r := by
  rcases small with ⟨hr, hd⟩ | ⟨hd, hr⟩
  · rw [Int.fdiv_eq_ediv_of_nonneg _ (by omega), Int.fmod_eq_emod_of_nonneg _ (by omega)]
    exact (Int.ediv_emod_unique (by omega)).mpr ⟨by omega, hr, hd⟩
  · rw [← Int.neg_fdiv_neg, ← neg_neg (n.fmod d), ← Int.neg_fmod_neg, Int.fdiv_eq_ediv_of_nonneg _ (by omega),
      Int.fmod_eq_emod_of_nonneg _ (by omega), neg_eq_iff_eq_neg]
    refine (Int.ediv_emod_unique (by omega)).mpr ⟨?_, by omega, by omega⟩
    rw [← whole]
    ring

theorem fmod_side (hd : d ≠ 0) : 0 ≤ n.fmod d ∧ n.fmod d < d ∨ d < n.fmod d ∧ n.fmod d ≤ 0 := by
  rcases lt_or_gt_of_ne hd with hd | hd
  · have flipped := Int.neg_fmod_neg n d
    have low := Int.fmod_nonneg_of_pos (-n) (show 0 < -d by omega)
    have high := Int.fmod_lt_of_pos (-n) (show 0 < -d by omega)
    omega
  · exact .inl ⟨Int.fmod_nonneg_of_pos n hd, Int.fmod_lt_of_pos n hd⟩

theorem fmod_sign (hd : d ≠ 0) : (n.fmod d = 0 ∨ (n.fmod d < 0 ↔ d < 0)) ∧ |n.fmod d| < |d| := by
  rcases fmod_side (n := n) hd with ⟨low, high⟩ | ⟨low, high⟩
  · rw [abs_of_nonneg low, abs_of_pos (by omega)]
    exact ⟨by omega, high⟩
  · rw [abs_of_nonpos high, abs_of_neg (by omega)]
    exact ⟨by omega, by omega⟩

/-- The quotient rounded down is the floor of the fraction. -/
theorem floor_div (hd : d ≠ 0) : ⌊(n : ℚ) / d⌋ = n.fdiv d := by
  have whole : (d : ℚ) * n.fdiv d + n.fmod d = n := by exact_mod_cast Int.mul_fdiv_add_fmod n d
  have hd' : (d : ℚ) ≠ 0 := by exact_mod_cast hd
  have quotient : (n : ℚ) / d = n.fdiv d + n.fmod d / d := by
    field_simp
    linarith
  rw [quotient, Int.floor_intCast_add, Int.floor_eq_zero_iff.mpr, add_zero]
  rcases fmod_side (n := n) hd with ⟨low, high⟩ | ⟨low, high⟩
  · have low : (0 : ℚ) ≤ n.fmod d := by exact_mod_cast low
    have high : (n.fmod d : ℚ) < d := by exact_mod_cast high
    exact ⟨div_nonneg low (by linarith), (div_lt_one (by linarith)).mpr high⟩
  · have low : (d : ℚ) < n.fmod d := by exact_mod_cast low
    have high : (n.fmod d : ℚ) ≤ 0 := by exact_mod_cast high
    exact ⟨div_nonneg_of_nonpos high (by linarith), (div_lt_one_of_neg (by linarith)).mpr low⟩

/-- The remainder of a division cut toward zero is on the dividend's side, and smaller than the divisor. -/
theorem tmod_side (hd : d ≠ 0) :
    (n.tmod d).natAbs < d.natAbs ∧ (0 ≤ n → 0 ≤ n.tmod d) ∧ (n ≤ 0 → n.tmod d ≤ 0) := by
  refine ⟨?_, Int.tmod_nonneg d, fun hn => ?_⟩
  · rw [Int.natAbs_tmod]
    exact Nat.mod_lt _ (Int.natAbs_pos.mpr hd)
  · have flipped := Int.tmod_nonneg d (show 0 ≤ -n by omega)
    rw [Int.neg_tmod] at flipped
    omega

/-- The remainder is on the other side of zero than the divisor. -/
def Across (r d : Int) : Prop := r < 0 ∧ 0 < d ∨ 0 < r ∧ d < 0

/-- **From a division cut toward zero to one rounded down**: it is corrected if the remainder is on the
other side. -/
theorem floor_of_across (hd : d ≠ 0) (across : Across (n.tmod d) d) :
    n.fdiv d = n.tdiv d - 1 ∧ n.fmod d = n.tmod d + d := by
  obtain ⟨small, -⟩ := tmod_side (n := n) hd
  have whole := Int.mul_tdiv_add_tmod n d
  unfold Across at across
  refine floor_of_parts ?_ (by omega)
  rw [mul_sub, mul_one]
  omega

@[inherit_doc floor_of_across]
theorem floor_of_not_across (hd : d ≠ 0) (plain : ¬ Across (n.tmod d) d) :
    n.fdiv d = n.tdiv d ∧ n.fmod d = n.tmod d := by
  obtain ⟨small, -⟩ := tmod_side (n := n) hd
  unfold Across at plain
  exact floor_of_parts (Int.mul_tdiv_add_tmod n d) (by omega)

end Integers

section Division

variable {x y : Int32}

/-- The test of the quotient asks for the sign of the dividend, which the remainder has, too. -/
theorem across_iff (hy : y ≠ 0) :
    (x % y ≠ 0 ∧ decide (x < 0) ≠ decide (y < 0)) ↔ Across (x.toInt.tmod y.toInt) y.toInt := by
  obtain ⟨-, nonneg, nonpos⟩ := tmod_side (n := x.toInt) (toInt_ne_zero.mpr hy)
  have hy' := toInt_ne_zero.mpr hy
  rw [← toInt_ne_zero, decide_neg_ne, Int32.toInt_mod]
  unfold Across
  omega

theorem across_iff' (hy : y ≠ 0) :
    (x % y ≠ 0 ∧ decide (x % y < 0) ≠ decide (y < 0)) ↔ Across (x.toInt.tmod y.toInt) y.toInt := by
  have hy' := toInt_ne_zero.mpr hy
  rw [← toInt_ne_zero, decide_neg_ne, Int32.toInt_mod]
  unfold Across
  omega

/-- Only the least word divided by -1 does not fit. -/
theorem toInt_div (fits : ¬ (x = Int32.minValue ∧ y = -1)) : (x / y).toInt = x.toInt.tdiv y.toInt := by
  by_cases hx : x = Int32.minValue
  · exact Int32.toInt_div_of_ne_right x y fun hy => fits ⟨hx, hy⟩
  · exact Int32.toInt_div_of_ne_left x y hx

/-- A quotient that is corrected is not the least word: that takes a divisor of 1. -/
theorem toInt_div_sub_one (hy : y ≠ 0) (fits : ¬ (x = Int32.minValue ∧ y = -1))
    (across : Across (x.toInt.tmod y.toInt) y.toInt) : (x / y - 1).toInt = (x / y).toInt - 1 := by
  refine toInt_sub (y := 1) ?_
  obtain ⟨small, -⟩ := tmod_side (n := x.toInt) (toInt_ne_zero.mpr hy)
  have whole := Int.mul_tdiv_add_tmod x.toInt y.toInt
  rw [← toInt_div fits] at whole
  obtain ⟨low, high⟩ := fits_toInt (x / y)
  obtain ⟨low', high'⟩ := fits_toInt x
  unfold Across at across
  show -2147483648 ≤ (x / y).toInt - 1 ∧ (x / y).toInt - 1 ≤ 2147483647
  refine ⟨?_, by omega⟩
  by_contra hlt
  have least : (x / y).toInt = -2147483648 := by omega
  rw [least] at whole
  omega

theorem toInt_mod_add (across : Across (x.toInt.tmod y.toInt) y.toInt) :
    (x % y + y).toInt = (x % y).toInt + y.toInt := by
  refine toInt_add ?_
  obtain ⟨low, high⟩ := fits_toInt (x % y)
  obtain ⟨low', high'⟩ := fits_toInt y
  unfold Across at across
  rw [← Int32.toInt_mod] at across
  unfold Fits
  omega

theorem toInt_floorMod (hy : y ≠ 0) : (floorMod x y).toInt = x.toInt.fmod y.toInt := by
  unfold floorMod
  dsimp only
  by_cases across : Across (x.toInt.tmod y.toInt) y.toInt
  · rw [if_pos ((across_iff' hy).mpr across), toInt_mod_add across, Int32.toInt_mod,
      (floor_of_across (toInt_ne_zero.mpr hy) across).2]
  · rw [if_neg (mt (across_iff' hy).mp across), Int32.toInt_mod,
      (floor_of_not_across (toInt_ne_zero.mpr hy) across).2]

theorem floorDiv?_of_fits (hy : y ≠ 0) (fits : ¬ (x = Int32.minValue ∧ y = -1)) :
    ∃ v, floorDiv? x y = some v ∧ v.toInt = x.toInt.fdiv y.toInt := by
  unfold floorDiv?
  rw [if_neg fits]
  refine ⟨_, rfl, ?_⟩
  by_cases across : Across (x.toInt.tmod y.toInt) y.toInt
  · rw [if_pos ((across_iff hy).mpr across), toInt_div_sub_one hy fits across, toInt_div fits,
      (floor_of_across (toInt_ne_zero.mpr hy) across).1]
  · rw [if_neg (mt (across_iff hy).mp across), toInt_div fits,
      (floor_of_not_across (toInt_ne_zero.mpr hy) across).1]

end Division

/-! ### Powers -/

/-- What a number that fits is a positive multiple of fits. -/
theorem fits_of_mul {n k : Int} (hk : 1 ≤ k) (fits : Fits (n * k)) : Fits n := by
  obtain ⟨low, high⟩ := fits
  constructor
  · by_contra hn
    have : n * k ≤ n * 1 := by nlinarith
    omega
  · by_contra hn
    have : n * 1 ≤ n * k := by nlinarith
    omega

/-- No square is the size of the least short, which has no negative. -/
theorem fits_sq {n : Int} (bound : n * n ≤ 2147483648) : Fits (n * n) := by
  have upper : n ≤ 46340 := by nlinarith
  have lower : -46340 ≤ n := by nlinarith
  constructor <;> nlinarith

/-- One round of squaring. -/
theorem pow_round (a b : Int) (e : Nat) : (if e % 2 = 1 then a * b else a) * (b * b) ^ (e / 2) = a * b ^ e := by
  have split : b ^ e = b ^ (e % 2) * (b * b) ^ (e / 2) := by
    rw [← sq, ← pow_mul, ← pow_add, Nat.mod_add_div]
  rw [split, ← mul_assoc]
  rcases Nat.mod_two_eq_zero_or_one e with he | he <;> simp [he]

/-- **If a power fits, so do the products of a round**, since they divide it. What is accumulated is
zero only if the base is. -/
theorem fits_round {a b : Int} {e : Nat} (he : 2 ≤ e) (ha : Fits a) (zero : a = 0 → b = 0) (fits : Fits (a * b ^ e)) :
    Fits (if e % 2 = 1 then a * b else a) ∧ Fits (b * b) := by
  by_cases hb : b = 0
  · subst hb
    refine ⟨?_, by decide⟩
    split
    · rw [mul_zero]
      decide
    · exact ha
  constructor
  · rw [← pow_round] at fits
    exact fits_of_mul (one_le_pow₀ (Int.add_one_le_of_lt (mul_self_pos.mpr hb))) fits
  · have divides : b * b ∣ a * b ^ e := by
      rw [← sq]
      exact Dvd.dvd.mul_left (pow_dvd_pow b he) a
    have hne : a * b ^ e ≠ 0 := mul_ne_zero (mt zero hb) (pow_ne_zero e hb)
    have size := Int.natAbs_le_of_dvd_ne_zero divides hne
    obtain ⟨low, high⟩ := fits
    exact fits_sq (by omega)

/-- Two products are made in a round, unless it is the last. -/
theorem powLoop_round (acc base : Int32) {e : Nat} (he : 2 ≤ e) :
    powLoop acc base e = (ofInt? (if e % 2 = 1 then acc.toInt * base.toInt else acc.toInt)).bind fun acc' =>
      (ofInt? (base.toInt * base.toInt)).bind fun base' => powLoop acc' base' (e / 2) := by
  rw [powLoop, if_neg (by omega), if_neg (by omega)]
  by_cases odd : e % 2 = 1
  · rw [if_pos odd, if_pos odd]
    rfl
  · rw [if_neg odd, if_neg odd, ofInt?_toInt]
    rfl

/-- **Repeated squaring finds a power if it fits.** -/
theorem powLoop_eq (acc base : Int32) (e : Nat) (zero : acc.toInt = 0 → base.toInt = 0) :
    powLoop acc base e = ofInt? (acc.toInt * base.toInt ^ e) := by
  -- on the exponent: a round halves it and leaves what is to be computed as it is
  induction e using Nat.strongRecOn generalizing acc base with
  | ind e ih =>
    by_cases h0 : e = 0
    · rw [powLoop, if_pos h0, h0, pow_zero, mul_one, ofInt?_toInt]
    by_cases h1 : e = 1
    · rw [powLoop, if_neg h0, if_pos h1, h1, pow_one]
      rfl
    have he : 2 ≤ e := by omega
    have round := fits_round he (fits_toInt acc) zero
    rw [powLoop_round acc base he]
    cases found : ofInt? (if e % 2 = 1 then acc.toInt * base.toInt else acc.toInt) with
    | none => exact (ofInt?_eq_none_iff.mpr fun fits => ofInt?_eq_none_iff.mp found (round fits).1).symm
    | some acc' =>
      cases found' : ofInt? (base.toInt * base.toInt) with
      | none => exact (ofInt?_eq_none_iff.mpr fun fits => ofInt?_eq_none_iff.mp found' (round fits).2).symm
      | some base' =>
        have hacc := toInt_of_ofInt? found
        have hbase := toInt_of_ofInt? found'
        have zero' : acc'.toInt = 0 → base'.toInt = 0 := by
          rw [hacc, hbase, mul_self_eq_zero]
          split
          · exact fun h => (mul_eq_zero.mp h).elim zero id
          · exact zero
        rw [Option.bind_some, Option.bind_some, ih (e / 2) (by omega) acc' base' zero', hacc, hbase, pow_round]

theorem pow?_eq (base : Int32) (e : Nat) : pow? base e = ofInt? (base.toInt ^ e) := by
  unfold pow?
  rw [powLoop_eq 1 base e fun h => absurd h (by decide), show (1 : Int32).toInt = 1 from rfl, one_mul]

/-! ### Powers modulo a number -/

/-- The size of a short other than zero. -/
structure IsModulus (m : Int64) : Prop where
  pos : 0 < m.toInt
  small : m.toInt ≤ 2147483648

/-- A remainder of the division by `m`. -/
def IsResidue (m x : Int64) : Prop := 0 ≤ x.toInt ∧ x.toInt < m.toInt

/-- The calls that a call of the loop comes to: what is accumulated in each, the base and the exponent. -/
inductive PowModRound (m acc base : Int64) (e : Nat) : Int64 → Int64 → Nat → Prop
  | first : PowModRound m acc base e acc base e
  | next {a b : Int64} {k : Nat} : PowModRound m acc base e a b k → k ≠ 0 →
      PowModRound m acc base e (if k % 2 = 1 then a * b % m else a) (b * b % m) (k / 2)

theorem PowModRound.same {m acc base a b : Int64} {e k : Nat} (round : PowModRound m acc base e a b k) :
    powModLoop m acc base e = powModLoop m a b k := by
  induction round with
  | first => rfl
  | next _ hk ih => rw [ih, powModLoop, if_neg hk]

namespace IsModulus

variable {m x y acc base a b : Int64} {e k : Nat} (hm : IsModulus m)
include hm

theorem mul_fits (hx : IsResidue m x) (hy : IsResidue m y) : FitsWide (x.toInt * y.toInt) := by
  obtain ⟨hx0, hxm⟩ := hx
  obtain ⟨hy0, hym⟩ := hy
  have hsmall := hm.small
  have low : 0 ≤ x.toInt * y.toInt := mul_nonneg hx0 hy0
  have high : x.toInt * y.toInt ≤ 2147483648 * 2147483648 := by
    apply mul_le_mul <;> omega
  constructor <;> omega

theorem toInt_mulMod (hx : IsResidue m x) (hy : IsResidue m y) : (x * y % m).toInt = x.toInt * y.toInt % m.toInt := by
  rw [Int64.toInt_mod, wide_mul (hm.mul_fits hx hy), Int.tmod_eq_emod_of_nonneg (mul_nonneg hx.1 hy.1)]

theorem isResidue_emod {n : Int} (hx : x.toInt = n % m.toInt) : IsResidue m x := by
  unfold IsResidue
  rw [hx]
  exact ⟨Int.emod_nonneg n hm.pos.ne', Int.emod_lt_of_pos n hm.pos⟩

/-- **What the loop works with stays below the modulus.** -/
theorem isResidue_round (hacc : IsResidue m acc) (hbase : IsResidue m base) (round : PowModRound m acc base e a b k) :
    IsResidue m a ∧ IsResidue m b := by
  induction round with
  | first => exact ⟨hacc, hbase⟩
  | next _ _ ih =>
    obtain ⟨ha, hb⟩ := ih
    refine ⟨?_, hm.isResidue_emod (hm.toInt_mulMod hb hb)⟩
    split
    · exact hm.isResidue_emod (hm.toInt_mulMod ha hb)
    · exact ha

/-- **Repeated squaring gives the remainder of the power.** -/
theorem toInt_powModLoop (hacc : IsResidue m acc) (hbase : IsResidue m base) :
    (powModLoop m acc base e).toInt = acc.toInt * base.toInt ^ e % m.toInt := by
  induction e using Nat.strongRecOn generalizing acc base with
  | ind e ih =>
    rw [powModLoop]
    by_cases h0 : e = 0
    · rw [if_pos h0, h0, pow_zero, mul_one, Int.emod_eq_of_lt hacc.1 hacc.2]
    rw [if_neg h0]
    obtain ⟨hacc', hbase'⟩ := hm.isResidue_round hacc hbase (.next (.first (e := e)) h0)
    have accumulated : (if e % 2 = 1 then acc * base % m else acc).toInt ≡
        (if e % 2 = 1 then acc.toInt * base.toInt else acc.toInt) [ZMOD m.toInt] := by
      split
      · rw [hm.toInt_mulMod hacc hbase]
        exact Int.mod_modEq _ _
      · exact Int.ModEq.refl _
    have squared : (base * base % m).toInt ≡ base.toInt * base.toInt [ZMOD m.toInt] := by
      rw [hm.toInt_mulMod hbase hbase]
      exact Int.mod_modEq _ _
    rw [ih (e / 2) (by omega) hacc' hbase', ← pow_round acc.toInt]
    exact accumulated.mul (squared.pow (e / 2))

end IsModulus

/-- The modulus that the loop works with. -/
def wideModulus (modulus : Int32) : Int64 := modulus.toInt64.abs

/-- The base that the loop starts from. -/
def wideBase (base modulus : Int32) : Int64 :=
  let b := base.toInt64 % wideModulus modulus
  if b < 0 then b + wideModulus modulus else b

/-- What the loop comes to, on the modulus' side of zero. -/
def widePow (base : Int32) (e : Nat) (modulus : Int32) : Int64 :=
  let m := wideModulus modulus
  let r := powModLoop m (1 % m) (wideBase base modulus) e
  if modulus < 0 ∧ r ≠ 0 then r - m else r

theorem powMod_eq_widePow (base : Int32) (e : Nat) (modulus : Int32) :
    powMod base e modulus = (ofInt? (widePow base e modulus).toInt).getD 0 := rfl

section Modulus

variable {x m : Int32}

/-- The least word has a size in 64 bits, too. -/
theorem toInt_wideModulus (m : Int32) : (wideModulus m).toInt = m.toInt.natAbs := by
  have hne : m.toInt64.toBitVec ≠ BitVec.intMin 64 := by
    intro least
    have value : m.toInt64.toInt = -9223372036854775808 := congrArg BitVec.toInt least
    rw [Int32.toInt_toInt64] at value
    have low := m.le_toInt
    omega
  rw [← Int32.toInt_toInt64]
  exact BitVec.toInt_abs_eq_natAbs_of_ne_intMin hne

theorem isModulus_wide (hm : m ≠ 0) : IsModulus (wideModulus m) := by
  obtain ⟨low, high⟩ := fits_toInt m
  have hm' := toInt_ne_zero.mpr hm
  constructor <;> rw [toInt_wideModulus] <;> omega

theorem toInt_wideBase (x : Int32) (hm : m ≠ 0) : (wideBase x m).toInt = x.toInt % (wideModulus m).toInt := by
  have modulus := isModulus_wide hm
  have hpos := modulus.pos
  have hsmall := modulus.small
  obtain ⟨small, -⟩ := tmod_side (n := x.toInt) hpos.ne'
  rw [← Int.fmod_eq_emod_of_nonneg _ hpos.le]
  unfold wideBase
  dsimp only
  have value : (x.toInt64 % wideModulus m).toInt = x.toInt.tmod (wideModulus m).toInt := by
    rw [Int64.toInt_mod, Int32.toInt_toInt64]
  split
  · rename_i neg
    rw [Int64.lt_iff_toInt_lt, value] at neg
    have neg : x.toInt.tmod (wideModulus m).toInt < 0 := neg
    rw [wide_add, value, (floor_of_across hpos.ne' (.inl ⟨neg, hpos⟩)).2]
    rw [value]
    constructor <;> omega
  · rename_i nonneg
    rw [Int64.lt_iff_toInt_lt, value] at nonneg
    have nonneg : ¬ x.toInt.tmod (wideModulus m).toInt < 0 := nonneg
    have plain : ¬ Across (x.toInt.tmod (wideModulus m).toInt) (wideModulus m).toInt := by
      unfold Across
      omega
    rw [value, (floor_of_not_across hpos.ne' plain).2]

theorem toInt_wideOne (m : Int32) : (1 % wideModulus m).toInt = 1 % (wideModulus m).toInt := by
  rw [Int64.toInt_mod]
  exact Int.tmod_eq_emod_of_nonneg (by decide)

/-- The remainder on the other side of a negative modulus. -/
theorem fmod_of_emod_natAbs {n d : Int} (hd : d ≠ 0) :
    n.fmod d = if d < 0 ∧ n % d.natAbs ≠ 0 then n % d.natAbs - d.natAbs else n % d.natAbs := by
  have whole := Int.mul_ediv_add_emod n d.natAbs
  have low := Int.emod_nonneg n (show (d.natAbs : Int) ≠ 0 by omega)
  have high := Int.emod_lt_of_pos n (show (0 : Int) < d.natAbs by omega)
  split
  · rename_i across
    refine (floor_of_parts (q := -(n / d.natAbs) - 1) ?_ (by omega)).2
    rw [mul_sub, mul_neg, mul_one, ← neg_mul]
    have : -d = d.natAbs := by omega
    rw [this]
    omega
  · rename_i plain
    by_cases hneg : d < 0
    · refine (floor_of_parts (q := -(n / d.natAbs)) ?_ (by omega)).2
      rw [mul_neg, ← neg_mul]
      have : -d = d.natAbs := by omega
      rw [this]
      omega
    · have : (d.natAbs : Int) = d := by omega
      rw [this, Int.fmod_eq_emod_of_nonneg _ (by omega)]

/-- What the loop starts from, and what it comes to. -/
theorem widePow_loop (x : Int32) (hm : m ≠ 0) (e : Nat) :
    IsResidue (wideModulus m) (1 % wideModulus m) ∧ IsResidue (wideModulus m) (wideBase x m) ∧
      (powModLoop (wideModulus m) (1 % wideModulus m) (wideBase x m) e).toInt = x.toInt ^ e % m.toInt.natAbs := by
  have modulus := isModulus_wide hm
  have one := toInt_wideOne m
  have base := toInt_wideBase x hm
  refine ⟨modulus.isResidue_emod one, modulus.isResidue_emod base, ?_⟩
  rw [modulus.toInt_powModLoop (modulus.isResidue_emod one) (modulus.isResidue_emod base), one, base,
    ← toInt_wideModulus]
  have reduced := (Int.mod_modEq 1 (wideModulus m).toInt).mul ((Int.mod_modEq x.toInt (wideModulus m).toInt).pow e)
  rw [one_mul] at reduced
  exact reduced

/-- **Modular power gives the remainder of the power, on the modulus' side of zero.** -/
theorem toInt_widePow (x : Int32) (hm : m ≠ 0) (e : Nat) : (widePow x e m).toInt = (x.toInt ^ e).fmod m.toInt := by
  obtain ⟨-, -, looped⟩ := widePow_loop x hm e
  have hm' := toInt_ne_zero.mpr hm
  have size := toInt_wideModulus m
  have low := Int.emod_nonneg (x.toInt ^ e) (show (m.toInt.natAbs : Int) ≠ 0 by omega)
  have high := Int.emod_lt_of_pos (x.toInt ^ e) (show (0 : Int) < m.toInt.natAbs by omega)
  obtain ⟨least, greatest⟩ := fits_toInt m
  have test : (m < 0 ∧ powModLoop (wideModulus m) (1 % wideModulus m) (wideBase x m) e ≠ 0) ↔
      m.toInt < 0 ∧ x.toInt ^ e % m.toInt.natAbs ≠ 0 := by
    rw [← looped, Int32.lt_iff_toInt_lt, ne_eq, ne_eq, ← Int64.toInt_inj]
    rfl
  unfold widePow
  dsimp only
  rw [fmod_of_emod_natAbs hm']
  split
  · rename_i across
    rw [if_pos (test.mp across), wide_sub, looped, size]
    rw [looped, size]
    constructor <;> omega
  · rename_i plain
    rw [if_neg (mt test.mpr plain), looped]

theorem fits_widePow (x : Int32) (hm : m ≠ 0) (e : Nat) : Fits (widePow x e m).toInt := by
  rw [toInt_widePow x hm]
  obtain ⟨low, high⟩ := fits_toInt m
  unfold Fits
  rcases fmod_side (n := x.toInt ^ e) (toInt_ne_zero.mpr hm) with ⟨low', high'⟩ | ⟨low', high'⟩ <;> omega

/-- The last conversion finds a short. -/
theorem powMod_found (x : Int32) (hm : m ≠ 0) (e : Nat) : ofInt? (widePow x e m).toInt = some (powMod x e m) := by
  obtain ⟨v, found, -⟩ := ofInt?_of_fits (fits_widePow x hm e)
  rw [powMod_eq_widePow, found, Option.getD_some]

theorem toInt_powMod (x : Int32) (hm : m ≠ 0) (e : Nat) : (powMod x e m).toInt = (x.toInt ^ e).fmod m.toInt := by
  rw [toInt_of_ofInt? (powMod_found x hm e), toInt_widePow x hm]

/-- **Every product in the loop fits in 64 bits.** -/
theorem powModRound_fits {acc base : Int64} {e k : Nat} (hm : m ≠ 0)
    (round : PowModRound (wideModulus m) (1 % wideModulus m) (wideBase x m) e acc base k) :
    FitsWide (acc.toInt * base.toInt) ∧ FitsWide (base.toInt * base.toInt) := by
  have modulus := isModulus_wide hm
  obtain ⟨hone, hbase, -⟩ := widePow_loop x hm e
  obtain ⟨ha, hb⟩ := modulus.isResidue_round hone hbase round
  exact ⟨modulus.mul_fits ha hb, modulus.mul_fits hb hb⟩

end Modulus

end Word
end CountedHeap
