/-
# What is written can be read

The text of a document reads back as the document. The reader takes the text token by
token, and what it makes of a value does not depend on what follows, so long as a number
is not taken to go on: no digit, point or exponent may come next (`Apart`). Commas and
brackets are none of these. Excepted are numbers that are kept as they stand, which may be
any text, and strings that stand for no text (`Plain`).

Key definitions: `Json.Apart`, `Json.reads`, `Json.Writes`, `Json.Plain`.
Key theorem: `Json.read?_render`.
-/
import Mathlib.Data.List.Basic
import CountedHeap.Json.Printer
import CountedHeap.Json.Reader

namespace CountedHeap
namespace Json

/-- What a number does not go on with. -/
def Apart : List Char → Prop
  | [] => True
  | c :: _ => c.isDigit = false ∧ c ≠ '.' ∧ c ≠ 'e' ∧ c ≠ 'E'

/-! ### Strings -/

theorem hexValue?_digitChar : ∀ n < 16, hexValue? (Nat.digitChar n) = some n := by decide

theorem hex4?_control {n : Nat} (control : n < 0x20) :
    hex4? '0' '0' (Nat.digitChar (n / 16)) (Nat.digitChar (n % 16)) = some n := by
  have zero : hexValue? '0' = some 0 := rfl
  have high := hexValue?_digitChar (n / 16) (by omega)
  have low := hexValue?_digitChar (n % 16) (by omega)
  simp only [hex4?, zero, high, low, bind, Option.bind, pure, Option.some.injEq]
  omega

/-- A character that needs no escape. -/
theorem scanString_shown {c : Char} (quote : c ≠ '"') (escape : c ≠ '\\') (shown : ¬ c.toNat < 0x20)
    (cs : List Char) :
    scanString (c :: cs) = (scanString cs).map fun (us, rest) => (c.toNat :: us, rest) := by
  rw [scanString.eq_def]
  split
  case h_5 heq =>
    cases heq
    rw [if_neg (not_or.mpr ⟨shown, escape⟩)]
    cases scanString cs <;> rfl
  all_goals simp_all

theorem scanString_quoteChar (c : Char) (cs : List Char) :
    scanString (quoteChar c ++ cs) = (scanString cs).map fun (us, rest) => (c.toNat :: us, rest) := by
  unfold quoteChar
  split
  · rename_i hc
    rcases hc with rfl | rfl <;> cases h : scanString cs <;> simp [scanString, escaped?, h]
  · rename_i hc
    obtain ⟨quote, escape⟩ := not_or.mp hc
    split
    · rename_i control
      simp only [controlEscape, List.cons_append, List.nil_append]
      rw [scanString, hex4?_control control]
      cases h : scanString cs <;> simp
    · rename_i shown
      rw [List.singleton_append, scanString_shown quote escape shown]

theorem scanString_quoted (s : List Char) (rest : List Char) :
    scanString (s.flatMap quoteChar ++ '"' :: rest) = some (s.map Char.toNat, rest) := by
  induction s with
  | nil => rfl
  | cons c s ih => simp [scanString_quoteChar, ih]

/-- Characters are no surrogates. -/
theorem joinSurrogates_chars (s : List Char) : joinSurrogates (s.map Char.toNat) = some s := by
  induction s with
  | nil => rfl
  | cons c s ih =>
    have valid : c.toNat < 0xD800 ∨ 0xDFFF < c.toNat ∧ c.toNat < 0x110000 := c.valid
    have high : isHighSurrogate c.toNat = false := by simp only [isHighSurrogate]; grind
    have low : isLowSurrogate c.toNat = false := by simp only [isLowSurrogate]; grind
    rw [List.map_cons, joinSurrogates.eq_def]
    simp [high, low, ih]

/-! ### Numbers -/

/-- Only zero begins with one. -/
theorem toDigits_zero_cons {n : Nat} {ds : List Char} (h : Nat.toDigits 10 n = '0' :: ds) : n = 0 ∧ ds = [] := by
  induction n using Nat.strongRecOn generalizing ds with
  | ind n ih =>
    by_cases small : n < 10
    · rw [Nat.toDigits_of_lt_base small] at h
      obtain ⟨digit, rfl⟩ := List.cons.inj h
      exact ⟨Nat.digitChar_eq_zero.mp digit, rfl⟩
    · rw [Nat.toDigits_of_base_le (by decide) (Nat.le_of_not_lt small)] at h
      obtain ⟨d, ds', hd⟩ := List.exists_cons_of_ne_nil (Nat.toDigits_ne_nil (n := n / 10) (b := 10))
      rw [hd, List.cons_append] at h
      obtain ⟨rfl, -⟩ := List.cons.inj h
      have := ih (n / 10) (by omega) hd
      omega

theorem isDigit_toDigits (n : Nat) : ∀ d ∈ Nat.toDigits 10 n, d.isDigit = true :=
  fun _ => Nat.isDigit_of_mem_toDigits (by decide) (by decide)

theorem ofDigits_toDigits (n : Nat) : ofDigits (Nat.toDigits 10 n) = n := Nat.ofDigitChars_ten_toDigits

theorem spanDigits_append {ds rest : List Char} (digits : ∀ d ∈ ds, d.isDigit = true) (apart : Apart rest) :
    spanDigits (ds ++ rest) = (ds, rest) := by
  have stop : rest.takeWhile Char.isDigit = [] ∧ rest.dropWhile Char.isDigit = rest := by
    cases rest with
    | nil => exact ⟨rfl, rfl⟩
    | cons c cs => simp [apart.1]
  simp only [spanDigits, List.takeWhile_append_of_pos digits, List.dropWhile_append_of_pos digits, stop,
    List.append_nil]

theorem scanWhole_toDigits (n : Nat) {rest : List Char} (apart : Apart rest) :
    scanWhole (Nat.toDigits 10 n ++ rest) = (Nat.toDigits 10 n, rest) := by
  obtain ⟨d, ds, hd⟩ := List.exists_cons_of_ne_nil (Nat.toDigits_ne_nil (n := n) (b := 10))
  by_cases zero : d = '0'
  · subst zero
    obtain ⟨-, rfl⟩ := toDigits_zero_cons hd
    rw [hd]
    rfl
  · have : scanWhole (d :: (ds ++ rest)) = spanDigits (d :: (ds ++ rest)) := by
      simp [scanWhole, zero]
    rw [hd, List.cons_append, this, ← List.cons_append, ← hd, spanDigits_append (isDigit_toDigits n) apart]

theorem Apart.scanFraction {rest : List Char} (apart : Apart rest) : scanFraction rest = some ([], rest) := by
  unfold Json.scanFraction
  split
  · exact absurd rfl apart.2.1
  · rfl

theorem Apart.scanExponent {rest : List Char} (apart : Apart rest) : scanExponent rest = some ([], rest) := by
  unfold Json.scanExponent
  split
  · rfl
  · rw [if_neg (not_or.mpr apart.2.2)]

/-- Only a zero with a sign is no integer. -/
theorem scanUnsigned_toDigits {negative : Bool} {n : Nat} (zero : negative = true → n ≠ 0) {rest : List Char}
    (apart : Apart rest) :
    scanUnsigned negative (Nat.toDigits 10 n ++ rest) = some (.int (if negative then -(n : Int) else n), rest) := by
  have whole : ¬ (negative = true ∧ n = 0) := fun h => zero h.1 h.2
  unfold scanUnsigned
  rw [scanWhole_toDigits n apart]
  split
  · rename_i h
    exact absurd (Prod.mk.inj h).1 Nat.toDigits_ne_nil
  · rename_i h
    obtain ⟨rfl, rfl⟩ := Prod.mk.inj h
    simp [apart.scanFraction, apart.scanExponent, ofDigits_toDigits, whole]

/-! ### Tokens -/

theorem scanToken_quote (s : String) (rest : List Char) :
    scanToken '"' (s.toList.flatMap quoteChar ++ '"' :: rest) = some (.scalar (.text s), rest) := by
  simp [scanToken, scanString_quoted, joinSurrogates_chars, text]

theorem scanToken_digit {c : Char} (digit : c.isDigit = true) (rest : List Char) :
    scanToken c rest = (scanUnsigned false (c :: rest)).map fun (n, rest) => (.scalar n, rest) := by
  unfold scanToken
  split
  case h_12 => rfl
  all_goals simp at digit

theorem isBlank_digit {c : Char} (digit : c.isDigit = true) : isBlank c = false := by
  by_contra blank
  simp only [isBlank, Bool.not_eq_false, Bool.or_eq_true, decide_eq_true_eq] at blank
  rcases blank with ((rfl | rfl) | rfl) | rfl <;> simp at digit

/-- The document that a text completes, from a state of the reader. -/
def reads (cs : List Char) (state : List Frame × Expect) : Option Json := do
  readTokens (← tokens cs) state

/-- The reader takes one token, and reads on from there. -/
theorem reads_token {c : Char} {cs after : List Char} {t : Token} (shown : isBlank c = false)
    (scan : scanToken c cs = some (t, after)) (stack : List Frame) (expect : Expect) :
    reads (c :: cs) (stack, expect) = (readToken stack expect t).bind (reads after) := by
  have step : tokens (c :: cs) = (tokens after).map (t :: ·) := by
    rw [tokens, if_neg (by simp [shown])]
    split
    · simp_all
    · simp_all
  have remaining : reads after = fun state => (tokens after).bind (readTokens · state) := rfl
  cases h : tokens after <;> simp [reads, remaining, step, h, readTokens]

/-! ### Values -/

/-- A value may begin where one is expected, and where an array may end instead. -/
def Expect.AdmitsValue (e : Expect) : Prop := e = .value ∨ e = .firstItem

theorem Expect.AdmitsValue.scalar {e : Expect} (admits : e.AdmitsValue) (stack : List Frame) (j : Json) :
    readToken stack e (.scalar j) = complete j stack := by
  rcases admits with rfl | rfl <;> rfl

theorem Expect.AdmitsValue.openArr {e : Expect} (admits : e.AdmitsValue) (stack : List Frame) :
    readToken stack e .openArr = some (.arr [] :: stack, .firstItem) := by
  rcases admits with rfl | rfl <;> rfl

theorem Expect.AdmitsValue.openObj {e : Expect} (admits : e.AdmitsValue) (stack : List Frame) :
    readToken stack e .openObj = some (.obj [] :: stack, .firstName) := by
  rcases admits with rfl | rfl <;> rfl

/-- The characters are read as the value, whatever follows and whatever is open. -/
def Writes (cs : List Char) (j : Json) : Prop :=
  ∀ rest, Apart rest → ∀ e : Expect, e.AdmitsValue → ∀ stack,
    reads (cs ++ rest) (stack, e) = (complete j stack).bind (reads rest)

theorem Writes.scalar {c : Char} {cs : List Char} {j : Json} (shown : isBlank c = false)
    (scan : ∀ rest, Apart rest → scanToken c (cs ++ rest) = some (.scalar j, rest)) : Writes (c :: cs) j := by
  intro rest apart e admits stack
  rw [List.cons_append, reads_token shown (scan rest apart), admits.scalar]

theorem writes_int (n : Int) : Writes (chars (.int n)) (.int n) := by
  cases n with
  | ofNat n =>
    have whole : chars (.int (Int.ofNat n)) = Nat.toDigits 10 n := by
      rw [chars, Int.toString_eq_repr, Int.repr_eq_if]
      simp
    obtain ⟨d, ds, hd⟩ := List.exists_cons_of_ne_nil (Nat.toDigits_ne_nil (n := n) (b := 10))
    have digit : d.isDigit = true := isDigit_toDigits n d (by simp [hd])
    rw [whole, hd]
    refine .scalar (isBlank_digit digit) fun rest apart => ?_
    rw [scanToken_digit digit, ← List.cons_append, ← hd, scanUnsigned_toDigits (by simp) apart]
    rfl
  | negSucc n =>
    have signed : chars (.int (Int.negSucc n)) = '-' :: Nat.toDigits 10 (n + 1) := by
      rw [chars, Int.toString_eq_repr, Int.repr_eq_if]
      simp
    have scan {rest : List Char} (apart : Apart rest) :
        scanUnsigned true (Nat.toDigits 10 (n + 1) ++ rest) = some (.int (Int.negSucc n), rest) :=
      scanUnsigned_toDigits (by simp) apart
    rw [signed]
    refine .scalar rfl fun rest apart => ?_
    simp only [scanToken, scan apart, Option.map_some]

theorem writes_text (s : String) : Writes (chars (.text s)) (.text s) := by
  refine .scalar rfl fun rest _ => ?_
  rw [List.append_assoc]
  exact scanToken_quote s rest

/-! ### Arrays and objects -/

theorem commaSeparated_cons (x : List Char) (xs : List (List Char)) :
    commaSeparated (x :: xs) = x ++ xs.flatMap (',' :: ·) := by
  induction xs generalizing x with
  | nil => simp [commaSeparated]
  | cons y ys ih => simp [commaSeparated, ih]

/-- After a value comes a comma or a bracket. -/
theorem apart_more (xs : List (List Char)) {c : Char} {rest : List Char} (close : Apart (c :: rest)) :
    Apart (xs.flatMap (',' :: ·) ++ c :: rest) := by
  cases xs with
  | nil => exact close
  | cons x xs => simp [Apart]

/-- The items after those that are done, up to the end of the array. -/
theorem reads_items {items : List Json} (each : ∀ j ∈ items, Writes (chars j) j) (done : List Json)
    (stack : List Frame) (rest : List Char) :
    reads ((itemChars items).flatMap (',' :: ·) ++ ']' :: rest) (.arr done :: stack, .next) =
      (complete (.arr (done.reverse ++ items)) stack).bind (reads rest) := by
  induction items generalizing done with
  | nil =>
    rw [List.append_nil]
    exact reads_token (t := .closeArr) rfl rfl _ _
  | cons j items ih =>
    have first := each j List.mem_cons_self
    have others := ih (fun i hi => each i (List.mem_cons_of_mem _ hi)) (j :: done)
    rw [itemChars, List.flatMap_cons, List.append_assoc, List.cons_append,
      reads_token (c := ',') (t := .comma) rfl rfl, readToken, afterComma, Option.bind_some,
      first _ (apart_more _ (by simp [Apart])) _ (.inl rfl), complete, Option.bind_some, others,
      List.reverse_cons, List.append_assoc, List.singleton_append]

theorem writes_arr {items : List Json} (each : ∀ j ∈ items, Writes (chars j) j) :
    Writes (chars (.arr items)) (.arr items) := by
  intro rest _ e admits stack
  rw [chars, List.cons_append, List.append_assoc, List.singleton_append,
    reads_token (c := '[') (t := .openArr) rfl rfl, admits.openArr, Option.bind_some]
  cases items with
  | nil => exact reads_token (t := .closeArr) rfl rfl _ _
  | cons j items =>
    have first := each j List.mem_cons_self
    rw [itemChars, commaSeparated_cons, List.append_assoc,
      first _ (apart_more _ (by simp [Apart])) _ (.inr rfl), complete, Option.bind_some,
      reads_items fun i hi => each i (List.mem_cons_of_mem _ hi)]
    rfl

/-- A field, where a name is expected. -/
theorem reads_field {j : Json} (writes : Writes (chars j) j) (name : String) {rest : List Char} (apart : Apart rest)
    {e : Expect} (admits : e = .firstName ∨ e = .name) (done : List (Option String × Json)) (stack : List Frame) :
    reads (quote (some name) ++ ':' :: chars j ++ rest) (.obj done :: stack, e) =
      reads rest (.obj ((some name, j) :: done) :: stack, .next) := by
  have named : readToken (.obj done :: stack) e (.scalar (.text name)) =
      some (.field done (some name) :: stack, .colon) := by
    rcases admits with rfl | rfl <;> rfl
  simp only [quote, Option.getD_some, List.cons_append, List.append_assoc, List.nil_append]
  rw [reads_token rfl (scanToken_quote name _), named, Option.bind_some,
    reads_token (c := ':') (t := .colon) rfl rfl, readToken, Option.bind_some, writes _ apart _ (.inl rfl)]
  rfl

/-- The fields after those that are done, up to the end of the object. -/
theorem reads_fields {fields : List (String × Json)} (each : ∀ f ∈ fields, Writes (chars f.2) f.2)
    (done : List (Option String × Json)) (stack : List Frame) (rest : List Char) :
    reads ((fieldChars (fields.map fun (k, v) => (some k, v))).flatMap (',' :: ·) ++ '}' :: rest)
        (.obj done :: stack, .next) =
      (complete (.obj (done.reverse ++ fields.map fun (k, v) => (some k, v))) stack).bind (reads rest) := by
  induction fields generalizing done with
  | nil =>
    rw [List.map_nil, List.append_nil]
    exact reads_token (t := .closeObj) rfl rfl _ _
  | cons f fields ih =>
    obtain ⟨name, j⟩ := f
    have first := each (name, j) List.mem_cons_self
    have others := ih (fun f hf => each f (List.mem_cons_of_mem _ hf)) ((some name, j) :: done)
    rw [List.map_cons, fieldChars, List.flatMap_cons, List.append_assoc, List.cons_append,
      reads_token (c := ',') (t := .comma) rfl rfl, readToken, afterComma, Option.bind_some,
      reads_field first name (apart_more _ (by simp [Apart])) (.inr rfl), others,
      List.reverse_cons, List.append_assoc, List.singleton_append]

theorem writes_object {fields : List (String × Json)} (each : ∀ f ∈ fields, Writes (chars f.2) f.2) :
    Writes (chars (.object fields)) (.object fields) := by
  intro rest _ e admits stack
  rw [object, chars, List.cons_append, List.append_assoc, List.singleton_append,
    reads_token (c := '{') (t := .openObj) rfl rfl, admits.openObj, Option.bind_some]
  cases fields with
  | nil => exact reads_token (t := .closeObj) rfl rfl _ _
  | cons f fields =>
    obtain ⟨name, j⟩ := f
    have first := each (name, j) List.mem_cons_self
    rw [List.map_cons, fieldChars, commaSeparated_cons, List.append_assoc,
      reads_field first name (apart_more _ (by simp [Apart])) (.inl rfl),
      reads_fields fun f hf => each f (List.mem_cons_of_mem _ hf)]
    rfl

/-! ### Documents -/

/-- Documents that have a text of their own. -/
inductive Plain : Json → Prop
  | null : Plain .null
  | bool (value : Bool) : Plain (.bool value)
  | int (value : Int) : Plain (.int value)
  | text (value : String) : Plain (.text value)
  | arr {items : List Json} (each : ∀ j ∈ items, Plain j) : Plain (.arr items)
  | object {fields : List (String × Json)} (each : ∀ f ∈ fields, Plain f.2) : Plain (.object fields)

theorem Plain.writes {j : Json} (plain : Plain j) : Writes (chars j) j := by
  induction plain with
  | null => exact .scalar rfl fun _ _ => rfl
  | bool value => cases value <;> exact .scalar rfl fun _ _ => rfl
  | int value => exact writes_int value
  | text value => exact writes_text value
  | arr _ ih => exact writes_arr ih
  | object _ ih => exact writes_object ih

/-- **What is written can be read.** -/
theorem read?_render {j : Json} (plain : Plain j) : read? j.render = some j := by
  have h := plain.writes [] trivial .value (.inl rfl) []
  rw [List.append_nil] at h
  calc read? j.render = reads (chars j) ([], .value) := by rw [read?, render, String.toList_ofList]; rfl
    _ = reads [] ([], .finished j) := h
    _ = some j := by simp [reads, tokens, readTokens]

end Json
end CountedHeap
