/-
# Tokens of JSON

Cuts a text into the tokens of JSON by its strict grammar: no comments, no
leading zeros, no bare control characters, and a digit on either side of a
point. Which sequences of tokens are documents is left to the reader.
-/
import CountedHeap.Json

namespace CountedHeap
namespace Json

/-! ### Strings -/

def isHighSurrogate (u : Nat) : Bool := 0xD800 ≤ u && u < 0xDC00

def isLowSurrogate (u : Nat) : Bool := 0xDC00 ≤ u && u < 0xE000

/-- The characters of a sequence of code points in which a surrogate pair stands
for one character, if no surrogate is unpaired. -/
def joinSurrogates : List Nat → Option (List Char)
  | [] => some []
  | u :: rest =>
    if isHighSurrogate u then
      match rest with
      | v :: rest =>
        if isLowSurrogate v then
          (joinSurrogates rest).map (Char.ofNat (0x10000 + (u - 0xD800) * 0x400 + (v - 0xDC00)) :: ·)
        else none
      | [] => none
    else if isLowSurrogate u then none
    else (joinSurrogates rest).map (Char.ofNat u :: ·)

def hexValue? (c : Char) : Option Nat :=
  if '0' ≤ c ∧ c ≤ '9' then some (c.toNat - '0'.toNat)
  else if 'a' ≤ c ∧ c ≤ 'f' then some (c.toNat - 'a'.toNat + 10)
  else if 'A' ≤ c ∧ c ≤ 'F' then some (c.toNat - 'A'.toNat + 10)
  else none

def hex4? (a b c d : Char) : Option Nat := do
  return (((← hexValue? a) * 16 + (← hexValue? b)) * 16 + (← hexValue? c)) * 16 + (← hexValue? d)

/-- The character that a one-letter escape stands for. -/
def escaped? : Char → Option Char
  | '"' => some '"'
  | '\\' => some '\\'
  | '/' => some '/'
  | 'b' => some '\x08'
  | 'f' => some '\x0c'
  | 'n' => some '\n'
  | 'r' => some '\r'
  | 't' => some '\t'
  | _ => none

/-- The code points of a string up to its closing quote, and what follows. -/
def scanString : List Char → Option (List Nat × List Char)
  | [] => none
  | '"' :: rest => some ([], rest)
  | '\\' :: 'u' :: a :: b :: c :: d :: rest => do
    let u ← hex4? a b c d
    let (us, rest) ← scanString rest
    return (u :: us, rest)
  | '\\' :: e :: rest => do
    let c ← escaped? e
    let (us, rest) ← scanString rest
    return (c.toNat :: us, rest)
  | c :: rest =>
    if c.toNat < 0x20 ∨ c = '\\' then none
    else do
      let (us, rest) ← scanString rest
      return (c.toNat :: us, rest)

/-! ### Numbers -/

/-- The leading digits, and what follows. -/
def spanDigits (cs : List Char) : List Char × List Char := (cs.takeWhile Char.isDigit, cs.dropWhile Char.isDigit)

def ofDigits (ds : List Char) : Nat := ds.foldl (fun n d => 10 * n + (d.toNat - '0'.toNat)) 0

/-- The digits before the point: a single zero, or digits that do not begin with one. -/
def scanWhole : List Char → List Char × List Char
  | '0' :: rest => (['0'], rest)
  | cs => spanDigits cs

/-- A point and at least one digit, or nothing. -/
def scanFraction : List Char → Option (List Char × List Char)
  | '.' :: rest =>
    match spanDigits rest with
    | ([], _) => none
    | (ds, rest) => some ('.' :: ds, rest)
  | cs => some ([], cs)

def scanSign : List Char → List Char × List Char
  | '+' :: rest => (['+'], rest)
  | '-' :: rest => (['-'], rest)
  | rest => ([], rest)

/-- An exponent with at least one digit, or nothing. -/
def scanExponent : List Char → Option (List Char × List Char)
  | [] => some ([], [])
  | e :: rest =>
    if e = 'e' ∨ e = 'E' then
      match spanDigits (scanSign rest).2 with
      | ([], _) => none
      | (ds, after) => some (e :: (scanSign rest).1 ++ ds, after)
    else some ([], e :: rest)

/-- A number without its sign. -/
def scanUnsigned (negative : Bool) (cs : List Char) : Option (Json × List Char) :=
  match scanWhole cs with
  | ([], _) => none
  | (whole, rest) => do
    let (fraction, rest) ← scanFraction rest
    let (exponent, rest) ← scanExponent rest
    let sign := if negative then ['-'] else []
    if fraction = [] ∧ exponent = [] ∧ ¬ (negative ∧ ofDigits whole = 0) then
      return (.int (if negative then -(ofDigits whole : Int) else ofDigits whole), rest)
    else
      return (.real (String.ofList (sign ++ whole ++ fraction ++ exponent)), rest)

/-! ### Tokens -/

inductive Token where
  | openArr
  | closeArr
  | openObj
  | closeObj
  | comma
  | colon
  /-- A null, truth value, number or string. -/
  | scalar (value : Json)
  deriving Repr, Inhabited

def isBlank (c : Char) : Bool := c = ' ' || c = '\t' || c = '\n' || c = '\r'

/-- The token that begins with `c`, and what follows it. -/
def scanToken (c : Char) (rest : List Char) : Option (Token × List Char) :=
  match c with
  | '[' => some (.openArr, rest)
  | ']' => some (.closeArr, rest)
  | '{' => some (.openObj, rest)
  | '}' => some (.closeObj, rest)
  | ',' => some (.comma, rest)
  | ':' => some (.colon, rest)
  | '"' => (scanString rest).map fun (us, rest) => (.scalar (.str ((joinSurrogates us).map String.ofList)), rest)
  | '-' => (scanUnsigned true rest).map fun (n, rest) => (.scalar n, rest)
  | 'n' =>
    match rest with
    | 'u' :: 'l' :: 'l' :: rest => some (.scalar .null, rest)
    | _ => none
  | 't' =>
    match rest with
    | 'r' :: 'u' :: 'e' :: rest => some (.scalar (.bool true), rest)
    | _ => none
  | 'f' =>
    match rest with
    | 'a' :: 'l' :: 's' :: 'e' :: rest => some (.scalar (.bool false), rest)
    | _ => none
  | c => (scanUnsigned false (c :: rest)).map fun (n, rest) => (.scalar n, rest)

/-! ### What a scan leaves is shorter than what it was given -/

theorem scanString_length {cs us rest} (h : scanString cs = some (us, rest)) : rest.length < cs.length := by
  fun_induction scanString cs generalizing us rest with
  | case1 => simp at h
  | case2 => simp_all
  | case3 a b c d cs ih =>
    simp only [bind, Option.bind_eq_some_iff, pure, Option.some.injEq, Prod.mk.injEq] at h
    obtain ⟨u, _, ⟨vs, r⟩, hr, _, rfl⟩ := h
    have := ih hr
    simp only [List.length_cons]
    omega
  | case4 e cs _ ih =>
    simp only [bind, Option.bind_eq_some_iff, pure, Option.some.injEq, Prod.mk.injEq] at h
    obtain ⟨u, _, ⟨vs, r⟩, hr, _, rfl⟩ := h
    have := ih hr
    simp only [List.length_cons]
    omega
  | case5 => simp at h
  | case6 c cs _ _ _ _ ih =>
    simp only [bind, Option.bind_eq_some_iff, pure, Option.some.injEq, Prod.mk.injEq] at h
    obtain ⟨⟨vs, r⟩, hr, _, rfl⟩ := h
    have := ih hr
    simp only [List.length_cons]
    omega

theorem spanDigits_length (cs : List Char) :
    (spanDigits cs).1.length + (spanDigits cs).2.length = cs.length := by
  unfold spanDigits
  rw [← List.length_append, List.takeWhile_append_dropWhile]

theorem scanWhole_length (cs : List Char) :
    (scanWhole cs).1.length + (scanWhole cs).2.length = cs.length := by
  unfold scanWhole
  split
  · simp only [List.length_cons, List.length_nil]
    omega
  · exact spanDigits_length cs

theorem scanFraction_length {cs fraction rest} (h : scanFraction cs = some (fraction, rest)) :
    rest.length ≤ cs.length := by
  unfold scanFraction at h
  split at h
  · rename_i cs
    have := spanDigits_length cs
    split at h
    · simp at h
    · rename_i hs
      rw [hs] at this
      cases h
      simp only [List.length_cons] at this ⊢
      omega
  · cases h
    exact Nat.le_refl _

theorem scanSign_length (cs : List Char) : (scanSign cs).2.length ≤ cs.length := by
  unfold scanSign
  split <;> simp

theorem scanExponent_length {cs exponent rest} (h : scanExponent cs = some (exponent, rest)) :
    rest.length ≤ cs.length := by
  unfold scanExponent at h
  split at h
  · cases h
    exact Nat.le_refl _
  · rename_i e cs
    split at h
    · have := spanDigits_length (scanSign cs).2
      have := scanSign_length cs
      split at h
      · simp at h
      · rename_i hs
        cases h
        simp_all only [List.length_cons]
        omega
    · cases h
      exact Nat.le_refl _

theorem scanUnsigned_length {negative cs n rest} (h : scanUnsigned negative cs = some (n, rest)) :
    rest.length < cs.length := by
  unfold scanUnsigned at h
  have hw := scanWhole_length cs
  split at h
  · simp at h
  · rename_i whole rest' hne hs
    rw [hs] at hw
    have hpos : 0 < whole.length := by
      cases whole with
      | nil => exact (hne rfl).elim
      | cons c cs => simp
    simp only [bind, Option.bind_eq_some_iff] at h
    obtain ⟨⟨fraction, r₁⟩, h₁, ⟨exponent, r₂⟩, h₂, h⟩ := h
    have h₁ : r₁.length ≤ rest'.length := scanFraction_length h₁
    have h₂ : r₂.length ≤ r₁.length := scanExponent_length h₂
    dsimp only at h
    split at h <;> simp only [pure, Option.some.injEq, Prod.mk.injEq] at h <;>
      obtain ⟨_, rfl⟩ := h <;> dsimp only at hw <;> omega

theorem scanToken_length {c cs t rest} (h : scanToken c cs = some (t, rest)) : rest.length ≤ cs.length := by
  unfold scanToken at h
  split at h
  case h_7 =>
    simp only [Option.map_eq_some_iff] at h
    obtain ⟨⟨us, r⟩, hs, h⟩ := h
    cases h
    exact Nat.le_of_lt (scanString_length hs)
  case h_8 =>
    simp only [Option.map_eq_some_iff] at h
    obtain ⟨⟨us, r⟩, hs, h⟩ := h
    cases h
    exact Nat.le_of_lt (scanUnsigned_length hs)
  case h_12 =>
    simp only [Option.map_eq_some_iff] at h
    obtain ⟨⟨us, r⟩, hs, h⟩ := h
    cases h
    exact Nat.le_of_lt_succ (scanUnsigned_length hs)
  all_goals first
    | cases h
      exact Nat.le_refl _
    | split at h
      · cases h
        simp only [List.length_cons]
        omega
      · simp at h

/-- The tokens of a text, which may be set apart by blanks. -/
def tokens (cs : List Char) : Option (List Token) :=
  match cs with
  | [] => some []
  | c :: rest =>
    if isBlank c then tokens rest
    else
      match _h : scanToken c rest with
      | none => none
      | some (t, after) => (tokens after).map (t :: ·)
termination_by cs.length
decreasing_by
  · simp
  · have := scanToken_length _h
    simp only [List.length_cons]
    omega

end Json
end CountedHeap
