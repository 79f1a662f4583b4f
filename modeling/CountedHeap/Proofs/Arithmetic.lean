/-
# Arithmetic on shorts is that of integers

An operator on two shorts comes to what it comes to on integers, if that fits in 32 bits,
and to an overflow if not. Division rounds down; only the least short divided by -1 has a
quotient that does not fit, and a remainder always does. This is shown of the request as a
whole, from the dispatch to the object that is made, in any state of a run in which
operands are held and there is room.

The result is a short like any other: the interned object, if its value is interned, and
otherwise an object in a slot where there was none (`Issues`). So it is never one of the
operands, not even that of a plus sign.

Key definitions: `Issues`, `exactly`, `Heap.Yields`.
Key theorems: `Reached.yields`, `arithmetic_exact`.
-/
import CountedHeap.Proofs.Operators
import CountedHeap.Proofs.Words

namespace CountedHeap

variable {κ : Role → Type} {α : Type}

/-! ### What is given is interned or new -/

/-- A reference that is given is one to an interned object or to a slot that was not live. -/
def Issues (h : Heap κ) (p : Except RunError Ref × Heap κ) : Prop :=
  ∀ r, p.1 = .ok r → r.index < h.interned.count ∨ h.object? r = none

namespace Issues

variable {h : Heap κ}

theorem failed (h : Heap κ) (e : RunError) : Ends (fun _ => True) (Issues h) ((throw e : RunM κ Ref) h) :=
  fun _ hr => nomatch hr

theorem read {f : Heap κ → ReadM α} {body : α → RunM κ Ref}
    (hb : ∀ a, Ends (fun _ => True) (Issues h) (body a h)) :
    Ends (fun _ => True) (Issues h) ((Heap.reading f >>= body) h) := by
  have looked : Ends (fun _ => True) (fun p => p.2 = h) (Heap.reading f h) :=
    (Ends.self fun _ _ => trivial).bind fun _ _ => rfl
  refine looked.runBind (fun a g hp => ?_) fun e g _ _ hr => nomatch hr
  cases hp
  exact hb a

theorem consuming {refs : List Ref} {body : RunM κ Ref} (hb : Ends (fun _ => True) (Issues h) (body h)) :
    Ends (fun _ => True) (Issues h) (Heap.consuming refs body h) :=
  hb.bind fun _ issued => issued

theorem short (wf : h.WellFormed) (v : Int32) : Ends (fun _ => True) (Issues h) (Heap.short v h) := by
  cases found : h.interned.short? v with
  | none => exact (Heap.short_new wf found).mono fun p new r hr => .inr (new r hr).1
  | some r =>
    obtain ⟨o, live, -⟩ := wf.find?_object (show h.interned.find? (.short v) = some r from found)
    rw [Heap.short_of_hit found (Heap.hit_eq live)]
    intro r' hr
    cases hr
    exact .inl (Interned.short?_lt found)

theorem checked (wf : h.WellFormed) (op : String) (v : Option Int32) :
    Ends (fun _ => True) (Issues h) ((Heap.Short.checked op v >>= Heap.short : RunM κ Ref) h) := by
  cases v with
  | some v => exact Issues.short wf v
  | none => exact failed h _

end Issues

namespace Heap

variable {h : Heap κ} {a b c : Ref} (wf : h.WellFormed)
include wf

theorem shortUnary_issues (op : UnaryOp) (f : Int32 → Option Int32) :
    Ends (fun _ => True) (Issues h) (Short.unary op f a h) :=
  Issues.consuming (Issues.read fun _ => Issues.checked wf _ _)

theorem shortArithmetic_issues (op : BinaryOp) (f : Int32 → Int32 → Option Int32) :
    Ends (fun _ => True) (Issues h) (Short.arithmetic op f a b h) :=
  Issues.consuming (Issues.read fun _ => Issues.read fun _ => Issues.checked wf _ _)

theorem shortDivision_issues (op : BinaryOp) (f : Int32 → Int32 → Option Int32) :
    Ends (fun _ => True) (Issues h) (Short.division op f a b h) := by
  refine Issues.consuming (Issues.read fun x => Issues.read fun y => ?_)
  by_cases hy : y = 0
  · rw [if_pos hy]
    exact Issues.failed h _
  · rw [if_neg hy]
    exact Issues.checked wf _ _

theorem shortPower_issues : Ends (fun _ => True) (Issues h) (Short.power a b c h) := by
  refine Issues.consuming (Issues.read fun x => Issues.read fun e => ?_)
  by_cases he : e < 0
  · rw [if_pos he]
    exact Issues.failed h _
  rw [if_neg he]
  refine Issues.read fun modulus => ?_
  by_cases hn : modulus.type = .none
  · rw [if_pos hn]
    exact Issues.checked wf _ _
  rw [if_neg hn]
  refine Issues.read fun m => ?_
  by_cases hm : m = 0
  · rw [if_pos hm]
    exact Issues.failed h _
  · rw [if_neg hm]
    exact Issues.short wf _

end Heap

/-- What a handler of shorts gives is interned or new, and so is what the operator gives. -/
theorem Heap.WellFormed.dispatch_issues {h : Heap κ} {ρ : Role} {find : Descriptor κ → Option (Handler κ ρ)}
    {find' : Datum → Option (Builtin ρ)} {operands : List Ref} {xs : List Datum} {call : Handler κ ρ → RunM κ Ref}
    (wf : h.WellFormed) (denote : List.Forall₂ h.Denotes operands xs)
    (same : ∀ x : Datum, find x.descriptor = (find' x).map .builtin) (op : String)
    (hcall : ∀ x ∈ xs, ∀ f, find' x = some f → ∀ g : Heap κ, g.WellFormed →
      Ends (fun _ => True) (Issues g) (call (.builtin f) g)) :
    Ends (fun _ => True) (Issues h) (dispatch op find operands call h) := by
  refine Ends.bind (resolve_denotes same wf op denote) fun answer ha => ?_
  rcases ha.cases with ⟨⟨handler, event⟩, f, rfl, hf, rfl⟩ | ⟨e, rfl, -⟩
  · obtain ⟨x, hx, found⟩ := Datum.offered_ok hf
    exact hcall x hx f found (h.emit event) (wf.of_eq rfl rfl rfl)
  · exact fun _ hr => nomatch hr

namespace Host

variable {h : Heap κ} {a b c : Ref} (host : Host κ)

theorem unary_issues (wf : h.WellFormed) {x : Datum} (hx : h.Denotes a x) (op : UnaryOp) :
    Ends (fun _ => True) (Issues h) (host.perform (.unary op a) h) := by
  obtain ⟨n, inner, hstep⟩ := host.perform_eq_step
  rw [hstep]
  refine wf.dispatch_issues (.cons hx .nil) (Datum.descriptor_unary? op) op.symbol fun _ _ f _ g wf => ?_
  cases f <;> exact Heap.shortUnary_issues wf _ _

theorem binary_issues (wf : h.WellFormed) {x y : Int32} (hx : h.Denotes a (.short x)) (hy : h.Denotes b (.short y))
    (op : BinaryOp) : Ends (fun _ => True) (Issues h) (host.perform (.binary op a b) h) := by
  obtain ⟨n, inner, hstep⟩ := host.perform_eq_step
  rw [hstep]
  refine wf.dispatch_issues (.cons hx (.cons hy .nil)) (Datum.descriptor_binary? op) op.symbol
    fun z hz f found g wf => ?_
  have short : ∃ v, z = .short v := by
    rcases List.mem_pair.mp hz with rfl | rfl <;> exact ⟨_, rfl⟩
  obtain ⟨v, rfl⟩ := short
  cases f with
  | shortAdd | shortSubtract | shortMultiply => exact Heap.shortArithmetic_issues wf _ _
  | shortRemainder | shortFloorDivide => exact Heap.shortDivision_issues wf _ _
  | tupleConcat | tupleSubscript => cases op <;> cases found

theorem power_issues (wf : h.WellFormed) {x y z : Datum} (hx : h.Denotes a x) (hy : h.Denotes b y)
    (hz : h.Denotes c z) : Ends (fun _ => True) (Issues h) (host.perform (.power a b c) h) := by
  obtain ⟨n, inner, hstep⟩ := host.perform_eq_step
  rw [hstep]
  refine wf.dispatch_issues (.cons hx (.cons hy (.cons hz .nil))) Datum.descriptor_power? powerSymbol
    fun _ _ f _ g wf => ?_
  cases f
  exact Heap.shortPower_issues wf

end Host

/-! ### Numbers as results -/

/-- A number, if it fits in a short. -/
def exactly (op : String) (n : Int) : Except RunError Int :=
  if Word.Fits n then .ok n else .error (.overflow op)

/-- The datum is the short of this number. -/
def Datum.IsNumber (x : Datum) (n : Int) : Prop := ∃ v : Int32, x = .short v ∧ v.toInt = n

/-- The answer is the expected error, or a short that holds the expected number: the interned one if
there is one, and otherwise an object in a slot that was not live before. -/
def Heap.Yields (h : Heap κ) (expected : Except RunError Int) (m : Except Fault (Except RunError Ref × Heap κ)) :
    Prop :=
  match expected with
  | .ok n => ∃ r g v, m = .ok (.ok r, g) ∧ g.IsShort r v ∧ v.toInt = n ∧
      (h.interned.short? v).elim (h.object? r = .none) (r = ·)
  | .error e => ∃ g, m = .ok (.error e, g)

/-- The first slots are those of the interned objects. -/
theorem Heap.WellFormed.find?_of_lt {h : Heap κ} (wf : h.WellFormed) {r : Ref} {o : Object}
    (live : h.object? r = some o) (hlt : r.index < h.interned.count) : h.interned.find? o.payload = some r := by
  obtain ⟨o', n, hs, live'⟩ := wf.interned r hlt
  rw [live] at live'
  cases live'
  obtain ⟨_, he, original⟩ := Interned.slots_original _ hs
  cases he
  exact wf.find?_of_immortal live original.immortal

theorem Reached.sole {host : Host κ} {c : Config} {h : Heap κ} (reached : Reached host (.ofConfig c) h) :
    h.Sole ∧ h.interned = ⟨c.internedRange⟩ := by
  obtain ⟨acts, t, spares⟩ := reached.evolves_sparing
  exact ⟨t.sole (Heap.WellFormed.ofConfig c) spares (Heap.sole_ofConfig c), t.interned⟩

/-- **What denotes the right datum and was issued is the right short.** -/
theorem Reached.yields {host : Host κ} {c : Config} {h : Heap κ} (reached : Reached host (.ofConfig c) h)
    {m : Except Fault (Except RunError Ref × Heap κ)} (later : ∀ x g, m = .ok (x, g) → Reached host (.ofConfig c) g)
    {datum : Except RunError Datum} (means : Ends (fun _ => False) (Means datum) m)
    (issues : Ends (fun _ => True) (Issues h) m) {expected : Except RunError Int}
    (number : Matches Datum.IsNumber datum expected) : h.Yields expected m := by
  obtain ⟨⟨result, g⟩, done, means⟩ := means.exists_ok fun _ => id
  rcases number.cases with ⟨_, n, rfl, rfl, v, rfl, hv⟩ | ⟨e, rfl, rfl⟩
  · rcases Matches.cases means with ⟨r, _, rfl, hx, denotes⟩ | ⟨_, _, he⟩
    · cases hx
      obtain ⟨o, live, -, holds⟩ := Heap.denotes_iff.mp denotes
      have payload : o.payload = .short v := by
        generalize o.payload = payload at holds
        cases holds
        rfl
      refine ⟨r, g, v, done, ⟨o, live, payload⟩, hv, ?_⟩
      obtain ⟨sole, interned⟩ := (later _ _ done).sole
      have same : g.interned = h.interned := interned.trans reached.sole.2.symm
      cases found : h.interned.short? v with
      | some r' =>
        refine sole r o r' live ?_
        rw [payload, same]
        exact found
      | none =>
        -- an interned object has another value
        refine ((issues.of_ok done) r rfl).resolve_left fun hlt => ?_
        have other := (later _ _ done).wellFormed.find?_of_lt live (same ▸ hlt)
        rw [payload, same] at other
        exact Option.some_ne_none r (other.symm.trans found)
    · cases he
  · rcases Matches.cases means with ⟨_, _, _, hx, _⟩ | ⟨_, rfl, he⟩
    · cases hx
    · cases he
      exact ⟨g, done⟩

/-! ### Operators on shorts -/

section Results

variable {x y : Int32}

theorem checked_exactly (op : String) (n : Int) :
    Matches Datum.IsNumber (Datum.checked op (Word.ofInt? n)) (exactly op n) := by
  unfold exactly
  split
  · rename_i fits
    obtain ⟨v, found, hv⟩ := Word.ofInt?_of_fits fits
    rw [found]
    exact ⟨v, rfl, hv⟩
  · rename_i out
    rw [Word.ofInt?_eq_none_iff.mpr out]
    exact rfl

theorem floorDivide_number : Matches Datum.IsNumber (Datum.binary .floorDivide (.short x) (.short y))
    (if y.toInt = 0 then .error (.zeroDivision "//")
      else if x.toInt = -2147483648 ∧ y.toInt = -1 then .error (.overflow "//")
      else .ok ⌊(x.toInt : ℚ) / y.toInt⌋) := by
  have zero : y.toInt = 0 ↔ y = 0 := Int32.toInt_inj (y := 0)
  have least : (x.toInt = -2147483648 ∧ y.toInt = -1) ↔ (x = Int32.minValue ∧ y = -1) :=
    and_congr (Int32.toInt_inj (y := Int32.minValue)) (Int32.toInt_inj (y := -1))
  rw [show Datum.binary .floorDivide (.short x) (.short y) = if y = 0 then .error (.zeroDivision "//")
    else Datum.checked "//" (Word.floorDiv? x y) from rfl]
  by_cases hy : y = 0
  · rw [if_pos hy, if_pos (zero.mpr hy)]
    exact rfl
  rw [if_neg hy, if_neg (mt zero.mp hy)]
  by_cases out : x = Int32.minValue ∧ y = -1
  · rw [if_pos (least.mpr out), Word.floorDiv?, if_pos out]
    exact rfl
  · obtain ⟨v, found, hv⟩ := Word.floorDiv?_of_fits hy out
    rw [if_neg (mt least.mp out), found, Word.floor_div (mt zero.mp hy)]
    exact ⟨v, rfl, hv⟩

theorem remainder_number : Matches Datum.IsNumber (Datum.binary .remainder (.short x) (.short y))
    (if y.toInt = 0 then .error (.zeroDivision "%") else .ok (x.toInt - y.toInt * ⌊(x.toInt : ℚ) / y.toInt⌋)) := by
  have zero : y.toInt = 0 ↔ y = 0 := Int32.toInt_inj (y := 0)
  rw [show Datum.binary .remainder (.short x) (.short y) = if y = 0 then .error (.zeroDivision "%")
    else .ok (.short (Word.floorMod x y)) from rfl]
  by_cases hy : y = 0
  · rw [if_pos hy, if_pos (zero.mpr hy)]
    exact rfl
  · rw [if_neg hy, if_neg (mt zero.mp hy), Word.floor_div (mt zero.mp hy), ← Int.fmod_def]
    exact ⟨_, rfl, Word.toInt_floorMod hy⟩

end Results

/-- What the answer holds, if there is one, is the number that is expected. -/
theorem Heap.Yields.toInt_eq {h g : Heap κ} {expected : Except RunError Int}
    {m : Except Fault (Except RunError Ref × Heap κ)} (yields : h.Yields expected m) {r : Ref} {v : Int32}
    (done : m = .ok (.ok r, g)) (short : g.IsShort r v) : expected = .ok v.toInt := by
  cases expected with
  | ok n =>
    obtain ⟨r', g', v', done', short', hv, -⟩ := yields
    rw [done] at done'
    cases done'
    rw [short.unique short', hv]
  | error e =>
    obtain ⟨g', done'⟩ := yields
    rw [done] at done'
    cases done'

namespace Run

variable {host : Host κ} {c : Config} {h : Heap κ} {held : Multiset Ref} (disciplined : host.Disciplined)
  (run : Run host 0 (.ofConfig c) 0 h held) (roomy : h.ledger.tracker.Roomy) {a b d : Ref} {x y : Int32} {z : Datum}
  {expected : Except RunError Int}
include disciplined run roomy

theorem unary_yields (supplied : h.Supplies held [a] [.short x]) (op : UnaryOp)
    (number : Matches Datum.IsNumber (Datum.unary op (.short x)) expected) :
    h.Yields expected (host.perform (.unary op a) h) := by
  have ready := run.ready disciplined roomy
  exact run.reached.yields (fun _ _ done => .perform _ run.reached done) (host.unary_means ready supplied op)
    (host.unary_issues ready.wellFormed supplied.head op) number

theorem binary_yields (supplied : h.Supplies held [a, b] [.short x, .short y]) (op : BinaryOp)
    (number : Matches Datum.IsNumber (Datum.binary op (.short x) (.short y)) expected) :
    h.Yields expected (host.perform (.binary op a b) h) := by
  have ready := run.ready disciplined roomy
  obtain ⟨hx, hy⟩ := supplied.pair
  exact run.reached.yields (fun _ _ done => .perform _ run.reached done) (host.binary_means ready supplied op)
    (host.binary_issues ready.wellFormed hx hy op) number

theorem power_yields (supplied : h.Supplies held [a, b, d] [.short x, .short y, z])
    (number : Matches Datum.IsNumber (Datum.power (.short x) (.short y) z) expected) :
    h.Yields expected (host.perform (.power a b d) h) := by
  have ready := run.ready disciplined roomy
  obtain ⟨hx, hy⟩ := supplied.pair
  have hz := (List.forall₂_cons.mp (List.forall₂_cons.mp (List.forall₂_cons.mp supplied.denote).2).2).1
  exact run.reached.yields (fun _ _ done => .perform _ run.reached done) (host.power_means ready supplied)
    (host.power_issues ready.wellFormed hx hy hz) number

end Run

/-- **Arithmetic on shorts is exact.** In any state of a balanced run with no limit on blocks and bytes, operators on
shorts that are held give the numbers of integer arithmetic, or overflow if these do not fit in 32 bits. Quotients
are rounded down, and overflow only for the least short by -1; remainders are smaller than the divisor and on its
side of zero; the two make up the dividend. Only a division by zero is refused as such, and no step of a division
leaves 32 bits. -/
theorem arithmetic_exact {host : Host κ} (disciplined : host.Disciplined) {c : Config} {h : Heap κ}
    {held : Multiset Ref} (run : Run host 0 (.ofConfig c) 0 h held) (roomy : h.ledger.tracker.Roomy) :
    (∀ a x, h.Supplies held [a] [.short x] →
      h.Yields (exactly "unary -" (-x.toInt)) (host.perform (.unary .negative a) h) ∧
      h.Yields (.ok x.toInt) (host.perform (.unary .positive a) h) ∧
      h.Yields (exactly "abs()" |x.toInt|) (host.perform (.unary .absolute a) h)) ∧
    (∀ a b x y, h.Supplies held [a, b] [.short x, .short y] →
      h.Yields (exactly "+" (x.toInt + y.toInt)) (host.perform (.binary .add a b) h) ∧
      h.Yields (exactly "-" (x.toInt - y.toInt)) (host.perform (.binary .subtract a b) h) ∧
      h.Yields (exactly "*" (x.toInt * y.toInt)) (host.perform (.binary .multiply a b) h) ∧
      h.Yields
        (if y.toInt = 0 then .error (.zeroDivision "//")
          else if x.toInt = -2147483648 ∧ y.toInt = -1 then .error (.overflow "//")
          else .ok ⌊(x.toInt : ℚ) / y.toInt⌋)
        (host.perform (.binary .floorDivide a b) h) ∧
      h.Yields
        (if y.toInt = 0 then .error (.zeroDivision "%") else .ok (x.toInt - y.toInt * ⌊(x.toInt : ℚ) / y.toInt⌋))
        (host.perform (.binary .remainder a b) h) ∧
      ∀ r g m, host.perform (.binary .remainder a b) h = .ok (.ok r, g) → g.IsShort r m →
        (m.toInt = 0 ∨ (m.toInt < 0 ↔ y.toInt < 0)) ∧ |m.toInt| < |y.toInt| ∧
        ∀ r' g' q, host.perform (.binary .floorDivide a b) h = .ok (.ok r', g') → g'.IsShort r' q →
          q.toInt * y.toInt + m.toInt = x.toInt) ∧
    ∀ x y : Int32, y ≠ 0 →
      (x % y).toInt = x.toInt.tmod y.toInt ∧
      (x % y ≠ 0 ∧ decide (x % y < 0) ≠ decide (y < 0) → (x % y + y).toInt = (x % y).toInt + y.toInt) ∧
      (¬ (x = Int32.minValue ∧ y = -1) → (x / y).toInt = x.toInt.tdiv y.toInt ∧
        (x % y ≠ 0 ∧ decide (x < 0) ≠ decide (y < 0) → (x / y - 1).toInt = (x / y).toInt - 1)) := by
  refine ⟨fun a x supplied => ⟨?_, ?_, ?_⟩, fun a b x y supplied => ?_, fun x y hy => ⟨?_, ?_, ?_⟩⟩
  · exact run.unary_yields disciplined roomy supplied .negative (checked_exactly _ _)
  · exact run.unary_yields disciplined roomy supplied .positive ⟨x, rfl, rfl⟩
  · rw [← Int.natCast_natAbs]
    exact run.unary_yields disciplined roomy supplied .absolute (checked_exactly _ _)
  · have quotient := run.binary_yields disciplined roomy supplied .floorDivide floorDivide_number
    have remainder := run.binary_yields disciplined roomy supplied .remainder remainder_number
    refine ⟨?_, ?_, ?_, quotient, remainder, fun r g m done short => ?_⟩
    · exact run.binary_yields disciplined roomy supplied .add (checked_exactly _ _)
    · exact run.binary_yields disciplined roomy supplied .subtract (checked_exactly _ _)
    · exact run.binary_yields disciplined roomy supplied .multiply (checked_exactly _ _)
    · have hm := remainder.toInt_eq done short
      by_cases hy : y.toInt = 0
      · rw [if_pos hy] at hm
        cases hm
      rw [if_neg hy, Word.floor_div hy, ← Int.fmod_def] at hm
      rw [← Except.ok.inj hm]
      obtain ⟨sign, small⟩ := Word.fmod_sign (n := x.toInt) hy
      refine ⟨sign, small, fun r' g' q done' short' => ?_⟩
      have hq := quotient.toInt_eq done' short'
      rw [if_neg hy] at hq
      split at hq
      · cases hq
      · rw [← Except.ok.inj hq, Word.floor_div hy, mul_comm]
        exact Int.mul_fdiv_add_fmod x.toInt y.toInt
  · exact Int32.toInt_mod x y
  · exact fun corrected => Word.toInt_mod_add ((Word.across_iff' hy).mp corrected)
  · exact fun fits => ⟨Word.toInt_div fits,
      fun corrected => Word.toInt_div_sub_one hy fits ((Word.across_iff hy).mp corrected)⟩

namespace Stock

/-- The shorts from -5 to 4 are interned, in the slots from 3 to 12. -/
def signedConfig : Config := { sampleConfig with shortRange := ⟨-5, 5⟩ }

/-- 7 and -2, the least short and -1. -/
def dividing : List (Request Name) := [.short 7, .short (-2), .short (-2147483648), .short (-1)]

end Stock

/-- 7 divided by -2 is -4, which is interned, and -1 is left. The least short divided by -1 does not fit,
and nothing is left. -/
theorem arithmetic_exact_least : ∃ h : Heap Stock.Name,
    Run (Stock.host 8) 0 (.ofConfig Stock.signedConfig) 0 h {⟨13⟩, ⟨6⟩, ⟨14⟩, ⟨7⟩} ∧
    (∃ g, (Stock.host 8).perform (.binary .floorDivide ⟨13⟩ ⟨6⟩) h = .ok (.ok ⟨4⟩, g) ∧ g.IsShort ⟨4⟩ (-4)) ∧
    h.Yields (.ok (-1)) ((Stock.host 8).perform (.binary .remainder ⟨13⟩ ⟨6⟩) h) ∧
    h.Yields (.error (.overflow "//")) ((Stock.host 8).perform (.binary .floorDivide ⟨14⟩ ⟨7⟩) h) ∧
    h.Yields (.ok 0) ((Stock.host 8).perform (.binary .remainder ⟨14⟩ ⟨7⟩) h) ∧
    h.Yields (.error (.overflow "abs()")) ((Stock.host 8).perform (.unary .absolute ⟨14⟩) h) := by
  have hplay : ((Stock.host 8).play 0 Stock.dividing (.ofConfig Stock.signedConfig) 0).map
      (fun p => (p.2, p.1.ledger.tracker, [13, 6, 14, 7].map fun i => p.1.object? ⟨i⟩)) =
      some ({⟨13⟩, ⟨6⟩, ⟨14⟩, ⟨7⟩}, .unmetered, [
        some ⟨1, .short, 0, 16, false, .short 7⟩, some ⟨2, .short, 0, 16, true, .short (-2)⟩,
        some ⟨1, .short, 0, 16, false, .short (-2147483648)⟩, some ⟨2, .short, 0, 16, true, .short (-1)⟩]) := by
    decide +kernel
  obtain ⟨h, run, seen⟩ := Run.of_play
    (fun h => (h.ledger.tracker, [13, 6, 14, 7].map fun i => h.object? ⟨i⟩)) (Multiset.zero_le _) hplay
  simp only [List.map_cons, List.map_nil, Prod.mk.injEq, List.cons.injEq, and_true] at seen
  obtain ⟨tracker, seven, minusTwo, least, minusOne⟩ := seen
  have short : ∀ {r : Ref} {n : Nat} {immortal : Bool} {v : Int32},
      h.object? r = some ⟨n, .short, 0, 16, immortal, .short v⟩ → h.Denotes r (.short v) :=
    fun live => Heap.denotes_iff.mpr ⟨_, live, rfl, .short _⟩
  have plain : h.Supplies {⟨13⟩, ⟨6⟩, ⟨14⟩, ⟨7⟩} [⟨13⟩, ⟨6⟩] [.short 7, .short (-2)] :=
    ⟨by decide, .cons (short seven) (.cons (short minusTwo) .nil)⟩
  have extreme : h.Supplies {⟨13⟩, ⟨6⟩, ⟨14⟩, ⟨7⟩} [⟨14⟩, ⟨7⟩] [.short (-2147483648), .short (-1)] :=
    ⟨by decide, .cons (short least) (.cons (short minusOne) .nil)⟩
  have alone : h.Supplies {⟨13⟩, ⟨6⟩, ⟨14⟩, ⟨7⟩} [⟨14⟩] [.short (-2147483648)] :=
    ⟨by decide, .cons (short least) .nil⟩
  obtain ⟨unary, binary, -⟩ := arithmetic_exact (Stock.host_disciplined 8) run (tracker ▸ trivial)
  obtain ⟨-, -, -, quotient, remainder, -⟩ := binary _ _ _ _ plain
  obtain ⟨-, -, -, quotient', remainder', -⟩ := binary _ _ _ _ extreme
  have floor : ⌊((7 : Int32).toInt : ℚ) / (-2 : Int32).toInt⌋ = -4 := Word.floor_div (by decide)
  have floor' : ⌊((-2147483648 : Int32).toInt : ℚ) / (-1 : Int32).toInt⌋ = 2147483648 := Word.floor_div (by decide)
  rw [floor] at quotient remainder
  rw [floor'] at remainder'
  refine ⟨h, run, ?_, remainder, quotient', remainder', (unary _ _ alone).2.2⟩
  obtain ⟨r, g, v, done, holds, hv, interned⟩ := quotient
  have value : v = -4 := Int32.toInt_inj.mp hv
  subst value
  rw [run.reached.sole.2] at interned
  cases (show r = ⟨4⟩ from interned)
  exact ⟨g, done, holds⟩

end CountedHeap
