/-
# The order of code points is the order of bytes

Names are kept in the order of their code points. In UTF-8 this is also the order of
their bytes. The first byte of a code tells how many follow, and a longer code has a
greater first byte (`leads_lt`); codes of one length hold the bits of their characters
from the high ones down (`trailing_lt`). So the codes of two characters are in order at
the first byte where they differ, and neither is the beginning of the other.

Key theorem: `Utf8.bytes_lt`.
-/
import Mathlib.Algebra.Order.Ring.Nat
import Mathlib.Tactic.NormNum
import Mathlib.Tactic.SplitIfs

namespace CountedHeap
namespace Utf8

/-- The last `k` bytes of the code of `n`, with six bits in each. -/
def trailing (n : Nat) : Nat → List UInt8
  | 0 => []
  | k + 1 => UInt8.ofNat (n / 64 ^ k % 64 + 128) :: trailing n k

/-- The code of `n` has this first byte, and `k` bytes follow it. -/
def Leads (n k first : Nat) : Prop :=
  k = 0 ∧ n ≤ 127 ∧ first = n ∨
  k = 1 ∧ 127 < n ∧ n ≤ 2047 ∧ first = n / 64 + 192 ∨
  k = 2 ∧ 2047 < n ∧ n ≤ 65535 ∧ first = n / 4096 + 224 ∨
  k = 3 ∧ 65535 < n ∧ n < 1114112 ∧ first = n / 262144 + 240

theorem encode_eq (c : Char) : ∃ k first,
    String.utf8EncodeChar c = UInt8.ofNat first :: trailing c.val.toNat k ∧ Leads c.val.toNat k first := by
  have hc : c.val.toNat < 1114112 := by
    rcases c.valid with low | ⟨-, high⟩ <;> omega
  unfold String.utf8EncodeChar Leads
  dsimp only
  generalize c.val.toNat = n at hc ⊢
  split_ifs with one two three
  · exact ⟨0, n, rfl, by omega⟩
  · refine ⟨1, n / 64 + 192, ?_, by omega⟩
    rw [Nat.mod_eq_of_lt (by omega : n / 64 < 32)]
    simp [trailing]
  · refine ⟨2, n / 4096 + 224, ?_, by omega⟩
    rw [Nat.mod_eq_of_lt (by omega : n / 4096 < 16)]
    simp [trailing]
  · refine ⟨3, n / 262144 + 240, ?_, by omega⟩
    rw [Nat.mod_eq_of_lt (by omega : n / 262144 < 8)]
    simp [trailing]

section Order

variable {m n : Nat} (hlt : m < n)
include hlt

theorem ofNat_lt (hn : n < 256) : UInt8.ofNat m < UInt8.ofNat n := by
  rw [UInt8.lt_iff_toNat_lt, UInt8.toNat_ofNat_of_lt' (by omega : m < 256), UInt8.toNat_ofNat_of_lt' hn]
  exact hlt

/-- Bytes that follow are in order, if all that is above them is the same. -/
theorem trailing_lt (rest rest' : List UInt8) :
    ∀ {k : Nat}, m / 64 ^ k = n / 64 ^ k → trailing m k ++ rest < trailing n k ++ rest'
  | 0, same => by
    rw [Nat.pow_zero, Nat.div_one, Nat.div_one] at same
    omega
  | k + 1, same => by
    rw [Nat.pow_succ, ← Nat.div_div_eq_div_mul, ← Nat.div_div_eq_div_mul] at same
    apply List.cons_lt_cons_iff.mpr
    by_cases high : m / 64 ^ k = n / 64 ^ k
    · right
      rw [high]
      exact ⟨rfl, trailing_lt rest rest' high⟩
    · left
      have hle : m / 64 ^ k ≤ n / 64 ^ k := Nat.div_le_div_right hlt.le
      apply ofNat_lt <;> omega

/-- First bytes are in order, and where they are the same, so is the length and all above the bytes that follow. -/
theorem leads_lt {k k' first first' : Nat} (lead : Leads m k first) (lead' : Leads n k' first') :
    first' < 256 ∧ (first < first' ∨ first = first' ∧ k = k' ∧ m / 64 ^ k = n / 64 ^ k) := by
  unfold Leads at lead lead'
  rcases lead with ⟨rfl, h⟩ | ⟨rfl, h⟩ | ⟨rfl, h⟩ | ⟨rfl, h⟩ <;>
    rcases lead' with ⟨rfl, h'⟩ | ⟨rfl, h'⟩ | ⟨rfl, h'⟩ | ⟨rfl, h'⟩ <;> norm_num <;> omega

end Order

theorem encode_lt {c d : Char} (hlt : c < d) (rest rest' : List UInt8) :
    String.utf8EncodeChar c ++ rest < String.utf8EncodeChar d ++ rest' := by
  obtain ⟨k, first, code, lead⟩ := encode_eq c
  obtain ⟨k', first', code', lead'⟩ := encode_eq d
  obtain ⟨small, order⟩ := leads_lt hlt lead lead'
  rw [code, code']
  apply List.cons_lt_cons_iff.mpr
  rcases order with less | ⟨rfl, rfl, high⟩
  · exact .inl (ofNat_lt less small)
  · exact .inr ⟨rfl, trailing_lt hlt rest rest' high⟩

theorem encodeAll_lt : ∀ {l m : List Char}, l < m → l.flatMap String.utf8EncodeChar < m.flatMap String.utf8EncodeChar
  | l, [], hlt => absurd hlt (List.not_lt_nil l)
  | [], d :: m, _ => by
    obtain ⟨k, first, code, -⟩ := encode_eq d
    rw [List.flatMap_cons, code]
    exact List.nil_lt_cons ..
  | c :: l, d :: m, hlt => by
    rw [List.flatMap_cons, List.flatMap_cons]
    rcases List.cons_lt_cons_iff.mp hlt with less | ⟨rfl, rest⟩
    · exact encode_lt less _ _
    · exact List.append_left_lt (encodeAll_lt rest)

/-- The bytes of a text. -/
def bytes (s : String) : List UInt8 := s.toUTF8.data.toList

theorem bytes_eq (s : String) : bytes s = s.toList.flatMap String.utf8EncodeChar := by
  unfold bytes
  rw [String.toUTF8_eq_toByteArray, ← String.utf8Encode_toList, List.utf8Encode, List.data_toByteArray]

/-- **Texts are in the order of their bytes.** -/
theorem bytes_lt {s t : String} (hlt : s < t) : bytes s < bytes t := by
  rw [bytes_eq, bytes_eq]
  exact encodeAll_lt (String.lt_iff.mp hlt)

end Utf8
end CountedHeap
