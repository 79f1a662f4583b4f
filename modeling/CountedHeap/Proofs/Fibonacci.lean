/-
# What `fib` comes to

`fib` is code like that of any user: it makes and compares shorts, subtracts, calls
itself and adds, each by a request. So its result is known in every heap in which
there is room for the shorts on the way. It is the Fibonacci number, unless that
does not fit in a short, or the recursion meets the limit on its depth. The left
call is one level deeper on an argument one less, so it meets the limit first, and
nothing is added before it has met it.

What a level comes to follows from what the two calls in it come to, once as an
equation between results (`Setting.fibOutcome_step`) and once for the code
(`Heap.Balanced.fibonacci_exec`). The code is followed with no assumption about
budgets or the argument, so that every request in it may fail, and what it has made
is accounted for on every path (`Brings`). The induction is on the size of the native
stack, of which every level takes one call: too small a stack ends the run, and how
small is too small is part of what is shown.

Key definitions: `fibonacciNumber`, `Setting.fibOutcome`, `Setting.fibCalls`.
Key theorems: `Setting.fibOutcome_step`, `perform_fib`, `fib_exact`.
-/
import Mathlib.Data.Nat.Fib.Basic
import CountedHeap.Proofs.Shorts

namespace CountedHeap

variable {κ : Role → Type} {E : Fault → Prop}

/-! ### The expected result -/

/-- 1 up to `n = 1`, and then the sum of the two numbers before. -/
def fibonacciNumber (n : Int) : Nat := Nat.fib (n.toNat + 1)

theorem fibonacciNumber_small {n : Int} (hn : n ≤ 1) : fibonacciNumber n = 1 := by
  have : n.toNat = 0 ∨ n.toNat = 1 := by omega
  unfold fibonacciNumber
  rcases this with h | h <;> rw [h] <;> rfl

theorem fibonacciNumber_add {n : Int} (hn : 2 ≤ n) :
    fibonacciNumber (n - 1) + fibonacciNumber (n - 2) = fibonacciNumber n := by
  obtain ⟨k, rfl⟩ : ∃ k : Nat, n = k + 2 := ⟨(n - 2).toNat, by omega⟩
  have h₁ : ((k : Int) + 2 - 1).toNat = k + 1 := by omega
  have h₂ : ((k : Int) + 2 - 2).toNat = k := by omega
  have h₃ : ((k : Int) + 2).toNat = k + 2 := by omega
  unfold fibonacciNumber
  rw [h₁, h₂, h₃, Nat.fib_add_two (n := k + 1), Nat.add_comm]

/-- The numbers up to the 45th fit in a short. -/
theorem fibonacciNumber_le {n : Int} (hn : n ≤ 45) : fibonacciNumber n ≤ 2147483647 := by
  have hle : n.toNat + 1 ≤ 46 := by omega
  exact le_trans (Nat.fib_mono hle) (by decide)

theorem fibonacciNumber_46 : 2147483647 < fibonacciNumber 46 := by decide

/-- The number as a short, if it fits. -/
def fibonacciShort (n : Int) : Except RunError Int32 :=
  if n ≤ 45 then .ok (Int32.ofNat (fibonacciNumber n)) else .error (.overflow "+")

theorem toInt_fibonacciNumber {n : Int} (hn : n ≤ 45) :
    (Int32.ofNat (fibonacciNumber n)).toInt = fibonacciNumber n := by
  have := fibonacciNumber_le hn
  exact Int32.toInt_ofNat_of_lt (by omega)

theorem fibonacciShort_step {n : Int} (hn : 2 ≤ n) : fibonacciShort n = (do
    let x ← fibonacciShort (n - 1)
    let y ← fibonacciShort (n - 2)
    BinaryOp.add.checked (Word.add? x y)) := by
  unfold fibonacciShort
  by_cases hleft : n - 1 ≤ 45
  · have hright : n - 2 ≤ 45 := by omega
    rw [if_pos hleft, if_pos hright]
    show _ = BinaryOp.add.checked (Word.add? _ _)
    have hsum : (fibonacciNumber (n - 1) : Int) + fibonacciNumber (n - 2) = fibonacciNumber n := by
      exact_mod_cast fibonacciNumber_add hn
    unfold Word.add?
    rw [toInt_fibonacciNumber hleft, toInt_fibonacciNumber hright, hsum]
    unfold Word.ofInt?
    by_cases hfits : n ≤ 45
    · have hle := fibonacciNumber_le hfits
      rw [if_pos hfits, if_pos (by omega)]
      rfl
    · have hn46 : n = 46 := by omega
      have hlarge := fibonacciNumber_46
      rw [if_neg hfits, hn46, if_neg (by omega)]
      rfl
  · rw [if_neg hleft, if_neg (by omega)]
    rfl

namespace Setting

variable {s : Setting} {n : Int}

/-- What `fib n` comes to. -/
def fibOutcome (s : Setting) (n : Int) : Except RunError Int32 :=
  match s.full? with
  | some limit => .error (.exhausted (.recursion limit (s.depth + 1)))
  | none =>
    match s.limit.filter fun limit => max (limit - s.depth : Nat) 1 < n with
    | some limit => .error (.exhausted (.recursion limit (limit + 1)))
    | none => fibonacciShort n

/-- How many calls `fib n` needs on the native stack, one inside the other. -/
def fibCalls (s : Setting) (n : Int) : Nat :=
  match s.limit with
  | some limit => max 1 (min n.toNat (limit - s.depth + 1))
  | none => max 1 n.toNat

theorem full?_eq_none_iff : s.full? = .none ↔ ∀ limit, s.limit = some limit → s.depth < limit := by
  unfold full?
  rw [Option.filter_eq_none_iff]
  simp

theorem fibOutcome_full {limit : Nat} (full : s.full? = some limit) (n : Int) :
    s.fibOutcome n = .error (.exhausted (.recursion limit (s.depth + 1))) := by
  unfold fibOutcome
  rw [full]

theorem fibOutcome_unlimited (none : s.limit = .none) (n : Int) : s.fibOutcome n = fibonacciShort n := by
  unfold fibOutcome full?
  rw [none]
  rfl

theorem fibOutcome_limited {limit : Nat} (hl : s.limit = some limit) (below : s.depth < limit) (n : Int) :
    s.fibOutcome n =
      if max (limit - s.depth : Nat) 1 < n then .error (.exhausted (.recursion limit (limit + 1)))
      else fibonacciShort n := by
  have free : s.full? = .none := full?_eq_none_iff.mpr fun l h => by
    rw [hl] at h
    cases h
    exact below
  unfold fibOutcome
  rw [free, hl]
  simp only [Option.filter_some, decide_eq_true_eq]
  by_cases met : max (limit - s.depth : Nat) 1 < n
  · rw [if_pos met, if_pos met]
  · rw [if_neg met, if_neg met]

/-- A call for which there are levels enough comes to the number. -/
theorem fibOutcome_within
    (within : ∀ limit, s.limit = some limit → s.depth < limit ∧ n ≤ max (limit - s.depth : Nat) 1) :
    s.fibOutcome n = fibonacciShort n := by
  cases hl : s.limit with
  | none => exact fibOutcome_unlimited hl n
  | some limit =>
    obtain ⟨below, small⟩ := within limit hl
    rw [fibOutcome_limited hl below, if_neg (Int.not_lt.mpr small)]

theorem fibOutcome_small (free : s.full? = .none) (hn : n ≤ 1) : s.fibOutcome n = .ok 1 := by
  have within : ∀ limit, s.limit = some limit → s.depth < limit ∧ n ≤ max (limit - s.depth : Nat) 1 :=
    fun limit hl => ⟨full?_eq_none_iff.mp free limit hl, by omega⟩
  rw [fibOutcome_within within, fibonacciShort, if_pos (by omega), fibonacciNumber_small hn]
  rfl

/-- **Above 1 the result is that of the two calls one level deeper**, or the first error. -/
theorem fibOutcome_step (free : s.full? = .none) (hn : 2 ≤ n) : s.fibOutcome n = (do
    let x ← s.deeper.fibOutcome (n - 1)
    let y ← s.deeper.fibOutcome (n - 2)
    BinaryOp.add.checked (Word.add? x y)) := by
  cases hl : s.limit with
  | none =>
    rw [fibOutcome_unlimited hl, fibOutcome_unlimited (s := s.deeper) hl, fibOutcome_unlimited (s := s.deeper) hl]
    exact fibonacciShort_step hn
  | some limit =>
    have below := full?_eq_none_iff.mp free limit hl
    rw [fibOutcome_limited hl below]
    by_cases hdeeper : s.depth + 1 < limit
    · have hlimit : s.deeper.limit = some limit := hl
      have hdepth : s.deeper.depth = s.depth + 1 := rfl
      rw [fibOutcome_limited hlimit hdeeper, fibOutcome_limited hlimit hdeeper, hdepth]
      by_cases hmet : max (limit - s.depth : Nat) 1 < n
      · rw [if_pos hmet, if_pos (by omega)]
        rfl
      · rw [if_neg hmet, if_neg (by omega), if_neg (by omega)]
        exact fibonacciShort_step hn
    · -- the next level is refused
      have hlast : limit = s.depth + 1 := by omega
      have full : s.deeper.full? = some limit := by
        unfold full?
        rw [show s.deeper.limit = some limit from hl, hlast]
        simp [deeper]
      rw [if_pos (by omega), fibOutcome_full full, hlast]
      rfl

theorem fibCalls_pos (s : Setting) (n : Int) : 1 ≤ s.fibCalls n := by
  unfold fibCalls
  split <;> omega

theorem fibCalls_full {limit : Nat} (full : s.full? = some limit) (n : Int) : s.fibCalls n = 1 := by
  obtain ⟨hl, hdepth⟩ := Option.filter_eq_some_iff.mp full
  have hdepth : limit ≤ s.depth := of_decide_eq_true hdepth
  unfold fibCalls
  rw [hl]
  show max 1 (min _ _) = 1
  omega

theorem fibCalls_small (hn : n ≤ 1) : s.fibCalls n = 1 := by
  unfold fibCalls
  split <;> omega

theorem fibCalls_mono {m : Int} (hle : m ≤ n) : s.fibCalls m ≤ s.fibCalls n := by
  unfold fibCalls
  split <;> omega

theorem fibCalls_step (free : s.full? = .none) (hn : 2 ≤ n) : s.fibCalls n = s.deeper.fibCalls (n - 1) + 1 := by
  unfold fibCalls
  rw [show s.deeper.limit = s.limit from rfl, show s.deeper.depth = s.depth + 1 from rfl]
  cases hl : s.limit with
  | none =>
    simp only
    omega
  | some limit =>
    have below := full?_eq_none_iff.mp free limit hl
    simp only
    omega

end Setting

/-! ### One level -/

/-- From a short above 1 a number up to 2 can be subtracted. -/
theorem Word.sub?_fits {x y : Int32} {k : Int} (hx : 2 ≤ x.toInt) (hy : y.toInt = k) (low : 0 ≤ k) (high : k ≤ 2) :
    ∃ v, Word.sub? x y = some v ∧ v.toInt = x.toInt - k := by
  have hlt := x.toInt_lt
  subst hy
  have hlow : -2147483648 ≤ x.toInt - y.toInt := by omega
  have hhigh : x.toInt - y.toInt ≤ 2147483647 := by omega
  exact ⟨_, if_pos ⟨hlow, hhigh⟩, Int32.toInt_ofInt_of_le hlow (Int.lt_of_le_of_lt hhigh (by decide))⟩

/-! ### The code of a level -/

namespace Heap.Balanced

open Routine

variable {host : Host κ} {inner : Perform κ} (serves : host.Serves inner) {h : Heap κ} {held rest : Multiset Ref}
  {a : Ref} {n : Int32}
include serves

/-- A difference, keeping `a`. -/
theorem minus_exec (bal : h.Balanced held) (ha : a ∈ held) (hn : h.IsShort a n) {k m : Int32}
    (fits : Word.sub? n k = some m) : Ends E (Brings h 0 (· = .ok m)) ((minus a k).exec inner h) := by
  have bal₀ : h.Balanced (0 + held) := by rwa [zero_add]
  refine bind_ends (serves.short_exec bal k) (fun r g brings => ?_) fun e g brings => brings.refused
  obtain ⟨made, v, hv, fresh⟩ := brings
  cases hv
  have bal₁ : g.Balanced (0 + ({r} + held)) := by
    rw [zero_add]
    exact made.deals.balanced bal₀
  obtain ⟨o, live, -⟩ := made.isShort bal₀ ha hn
  refine bind_ends (serves.acquire_exec live) (fun a' g' hp => ?_) fun e g' hp => nomatch hp.1
  obtain ⟨ha', copied⟩ := hp
  cases ha'
  have both := made.gain copied
  have hn' := both.isShort bal₀ ha hn
  have hr := copied.isShort bal₁ (by simp) fresh.isShort
  have difference := serves.ask_ends (.binary .subtract a r) fun k deeper =>
    (both.deals.balanced bal₀).binary_brings (E := E) hn' hr host deeper .subtract (.builtin .shortSubtract) rfl rfl k
  rw [fits] at difference
  exact difference.mono fun p brings => brings.after both

/-- The second of the two calls, and the sum. If it fails, what the first came to is given back. -/
theorem fibSum_exec {left : Ref} {x m : Int32} {outcome : Except RunError Int32} (bal : h.Balanced ({left} + held))
    (ha : a ∈ held) (hn : h.IsShort a n) (hx : h.IsShort left x) (fits : Word.sub? n 2 = some m)
    (call : ∀ {b g rest}, Heap.setting g = h.setting → Heap.Balanced g ({b} + rest) → Heap.IsShort g b m →
      Ends E (Brings g {b} (· = outcome)) (inner (.fib b) g)) :
    Ends E (Brings h {left} (· = do
        let y ← outcome
        BinaryOp.add.checked (Word.add? x y)))
      ((do
        let right ← tryCatch (do fib (← minus a 2)) fun e => do
          Routine.release left
          throw e
        Routine.binary .add left right : Routine κ Ref).exec inner h) := by
  have bal₀ : h.Balanced (0 + ({left} + held)) := by rwa [zero_add]
  have bal₀' : h.Balanced (0 + {left} + held) := by rwa [zero_add]
  have second : Ends E (Brings h 0 (· = outcome)) ((do fib (← minus a 2) : Routine κ Ref).exec inner h) := by
    refine bind_ends (bal.minus_exec serves (by simp [ha]) hn fits) (fun r g brings => ?_)
      fun e g brings => brings.refused
    obtain ⟨made, v, hv, fresh⟩ := brings
    cases hv
    refine (Procedure.ask_ends (.fib r) (call made.setting (made.deals.balanced bal₀) fresh.isShort)).mono ?_
    exact fun p brings => brings.after made
  have guarded : Ends E (fun p => (∀ r, p.1 = .ok r → Brings h 0 (· = outcome) p) ∧
        ∀ e, p.1 = .error e → Brings h {left} (· = outcome) p)
      ((tryCatch (do fib (← minus a 2)) fun e => do
          Routine.release left
          throw e : Routine κ Ref).exec inner h) := by
    refine catch_ends second (fun r g brings => ⟨fun _ _ => brings, nofun⟩) fun e g brings => ?_
    refine bind_ends (serves.release_exec left g) (fun _ g' hp => ?_) fun e' g' hp => nomatch hp
    cases hp
    have released := Brings.release bal₀' brings
    rw [zero_add] at released
    exact ⟨nofun, fun _ _ => released⟩
  refine bind_ends guarded (fun r g brings => ?_) fun e g brings => ?_
  · obtain ⟨made, y, hy, fresh⟩ := brings.1 r rfl
    rw [← hy]
    have hx' := made.isShort bal₀ (by simp) hx
    have both := made.frame {left}
    rw [zero_add, add_comm ({r} : Multiset Ref)] at both
    have bal' := both.deals.balanced bal
    have sum := serves.ask_ends (.binary .add left r) fun k deeper =>
      bal'.binary_brings (E := E) hx' fresh.isShort host deeper .add (.builtin .shortAdd) rfl rfl k
    exact sum.mono fun p brings => brings.after both
  · obtain ⟨turned, expected⟩ := brings.2 e rfl
    refine ⟨turned, fun roomy => ?_⟩
    rw [← expected roomy]
    rfl

/-- **One level**, if the calls in it are as they should be. -/
theorem fibLevel_exec (ready : Int → Prop) {o : Object} (bal : h.Balanced held) (ha : a ∈ held)
    (live : h.object? a = some o)
    (builtin : o.type.isBuiltin = true)
    (calls : ∀ {n m b g rest}, h.IsShort a n → 2 ≤ n.toInt → m.toInt < n.toInt → Heap.setting g = h.setting →
      Heap.Balanced g ({b} + rest) → Heap.IsShort g b m →
      Ends E (Brings g {b} fun x => ready m.toInt ∧ x = h.setting.fibOutcome m.toInt) (inner (.fib b) g)) :
    Ends E (Brings h 0 fun z => ∀ n, h.IsShort a n → if n.toInt ≤ 1 then z = .ok 1
        else ready (n.toInt - 1) ∧ z = do
          let x ← h.setting.fibOutcome (n.toInt - 1)
          let y ← h.setting.fibOutcome (n.toInt - 2)
          BinaryOp.add.checked (Word.add? x y))
      ((fibLevel a).exec inner h) := by
  have bal₀ : h.Balanced (0 + held) := by rwa [zero_add]
  refine bind_ends (serves.short_exec bal 1) (fun one g brings => ?_) fun e g brings => brings.refused
  obtain ⟨made, _, hone, fresh⟩ := brings
  cases hone
  have bal₁ : g.Balanced (0 + ({one} + held)) := by
    rw [zero_add]
    exact made.deals.balanced bal₀
  obtain ⟨k, live₁⟩ := made.deals.object_kept bal₀ live ha
  refine bind_ends (serves.acquire_exec live₁) (fun a' g' hp => ?_) fun e g' hp => nomatch hp.1
  obtain ⟨ha', copied⟩ := hp
  cases ha'
  have both := made.gain copied
  have hone := copied.isShort bal₁ (by simp) fresh.isShort
  obtain ⟨k, live₂⟩ := both.deals.object_kept bal₀ live ha
  have compared := serves.ask_ends (.compare .lessOrEqual a one) fun n _ =>
    (both.deals.balanced bal₀).lessOrEqual_turns (E := E) live₂ builtin hone host n
  refine bind_ends compared (fun small g'' hp => ?_) fun e g'' hp => ?_
  · obtain ⟨turned, n, ⟨o', live₃, payload⟩, rfl⟩ := hp
    rw [live₂] at live₃
    cases live₃
    have hn : h.IsShort a n := ⟨o, live, payload⟩
    have t := both.trans turned
    have bal' := t.deals.balanced bal₀
    rw [zero_add] at bal'
    have hone : n ≤ 1 ↔ n.toInt ≤ 1 := Int32.le_iff_toInt_le
    by_cases hsmall : n ≤ 1
    · simp only [decide_eq_true hsmall]
      refine (serves.short_exec bal' 1).mono fun p brings => (brings.mono fun z hz n' hn' => ?_).after t
      cases hn.unique hn'
      rw [if_pos (hone.mp hsmall)]
      exact hz
    · simp only [decide_eq_false hsmall]
      have hlarge : 2 ≤ n.toInt := by
        have := mt hone.mpr hsmall
        omega
      obtain ⟨m₁, fits₁, hm₁⟩ : ∃ m, Word.sub? n 1 = some m ∧ m.toInt = n.toInt - 1 :=
        Word.sub?_fits hlarge rfl (by decide) (by decide)
      obtain ⟨m₂, fits₂, hm₂⟩ : ∃ m, Word.sub? n 2 = some m ∧ m.toInt = n.toInt - 2 :=
        Word.sub?_fits hlarge rfl (by decide) (by decide)
      refine bind_ends (bal'.minus_exec serves ha (t.isShort bal₀ ha hn) fits₁) (fun r g brings => ?_)
        fun e g brings => (brings.after t).refused
      obtain ⟨made, v, hv, fresh⟩ := brings
      cases hv
      have made := t.trans made
      have first := calls hn hlarge (by omega) made.setting (made.deals.balanced bal₀) fresh.isShort
      refine bind_ends (Procedure.ask_ends (.fib r) first) (fun left g brings => ?_) fun e g brings => ?_
      · obtain ⟨called, x, ⟨hready, hx⟩, fresh⟩ := brings
        have called := made.trans called
        have sum := (called.deals.balanced bal₀).fibSum_exec (E := E) serves ha (called.isShort bal₀ ha hn)
          fresh.isShort fits₂ fun same bal short =>
            (calls hn hlarge (by omega) (same.trans called.setting) bal short).mono fun p brings =>
              brings.mono fun _ hy => hy.2
        refine sum.mono fun p brings => (brings.mono fun z hz n' hn' => ?_).after called
        cases hn.unique hn'
        rw [if_neg (by omega), ← hm₁, ← hm₂, ← hx]
        exact ⟨hready, hz⟩
      · refine ⟨made.trans brings.1, fun roomy n' hn' => ?_⟩
        obtain ⟨hready, he⟩ := brings.2 (made.framed.roomy roomy)
        cases hn.unique hn'
        rw [if_neg (by omega), ← hm₁, ← he]
        exact ⟨hready, rfl⟩
  · -- then the argument is no short
    refine ⟨both.trans hp.1, fun _ n hn => ?_⟩
    exact absurd (both.isShort bal₀ ha hn) (hp.2 n)

/-- The call that works on this level: it enters it, and on every path it leaves it and gives the
argument back. -/
theorem fibonacci_exec (ready : Int → Prop) {o : Object} (bal : h.Balanced ({a} + rest)) (live : h.object? a = some o)
    (builtin : o.type.isBuiltin = true)
    (calls : ∀ {n m b g rest}, h.IsShort a n → 2 ≤ n.toInt → m.toInt < n.toInt → h.setting.full? = .none →
      Heap.setting g = h.setting.deeper → Heap.Balanced g ({b} + rest) → Heap.IsShort g b m →
      Ends E (Brings g {b} fun x => ready m.toInt ∧ x = h.setting.deeper.fibOutcome m.toInt) (inner (.fib b) g)) :
    Ends E (Brings h {a} fun x => ∀ n, h.IsShort a n →
      (h.setting.full? = .none → 2 ≤ n.toInt → ready (n.toInt - 1)) ∧ x = h.setting.fibOutcome n.toInt)
      ((fibonacci a).exec inner h) := by
  have release : ∀ g, Ends E (fun p => p.2 = g.release a) ((Routine.releaseAll [a]).exec inner g) := by
    intro g
    refine bind_ends (serves.release_exec a g) (fun _ g' hp => ?_) fun e g' hp => nomatch hp
    cases hp
    rfl
  have enter := serves.enter_exec (E := E) h
  cases full : h.setting.full? with
  | some limit =>
    rw [full] at enter
    refine recursing_ends enter (fun e g hp => ?_) fun g hp => nomatch hp
    cases hp
    refine (release h).mono fun p hp => ?_
    rw [hp]
    exact ⟨Turns.release bal, fun _ n _ => ⟨nofun, (Setting.fibOutcome_full full _).symm⟩⟩
  | none =>
    rw [full] at enter
    refine recursing_ends enter (fun e g hp => nomatch hp) fun g hp => ?_
    cases hp
    have bal' : Heap.Balanced { h with depth := h.depth + 1 } ({a} + rest) :=
      bal.of_eq (bal.wellFormed.of_eq rfl rfl rfl) rfl
    have level := bal'.fibLevel_exec (E := E) serves ready (by simp) live builtin
      fun hn hlarge hless same => calls hn hlarge hless full same
    have outcome : Ends E (Brings { h with depth := h.depth + 1 } 0 fun x => ∀ n, h.IsShort a n →
        (2 ≤ n.toInt → ready (n.toInt - 1)) ∧ x = h.setting.fibOutcome n.toInt)
        ((fibLevel a).exec inner { h with depth := h.depth + 1 }) := by
      refine level.mono fun p brings => brings.mono fun x hx n hn => ?_
      have hx := hx n hn
      by_cases hsmall : n.toInt ≤ 1
      · rw [if_pos hsmall] at hx
        rw [Setting.fibOutcome_small full hsmall]
        exact ⟨fun hlarge => absurd hsmall (by omega), hx⟩
      · rw [if_neg hsmall] at hx
        rw [Setting.fibOutcome_step full (by omega)]
        exact ⟨fun _ => hx.1, hx.2⟩
    have settled : Ends E (Brings { h with depth := h.depth + 1 } {a} fun x => ∀ n, h.IsShort a n →
        (2 ≤ n.toInt → ready (n.toInt - 1)) ∧ x = h.setting.fibOutcome n.toInt)
        ((Routine.consuming [a] (fibLevel a)).exec inner { h with depth := h.depth + 1 }) := by
      refine andFinally_ends outcome fun x g brings => (release g).mono fun p hp => ?_
      have bal₀ : Heap.Balanced { h with depth := h.depth + 1 } (0 + {a} + rest) := by rwa [zero_add]
      have released := Brings.release bal₀ brings
      rw [zero_add] at released
      rw [hp]
      exact released
    refine andFinally_ends settled fun x g brings => (serves.leave_exec g).mono fun p hp => ?_
    cases hp
    exact brings.leaveRecursion.mono fun x hx n hn => ⟨fun _ => (hx n hn).1, (hx n hn).2⟩

end Heap.Balanced

/-! ### All levels -/

/-- **`fib` of a built-in value comes to what it should and gives everything back on every path**, or the native stack
is too small for it. -/
theorem perform_fib (host : Host κ) : ∀ (k : Nat) {h : Heap κ} {rest : Multiset Ref} {a : Ref} {o : Object},
    h.Balanced ({a} + rest) → h.object? a = some o → o.type.isBuiltin = true →
    Ends (fun f => f = .stackOverflow ∧ (k = 0 ∨ ∃ n, h.IsShort a n ∧ k < h.setting.fibCalls n.toInt))
      (Brings h {a} fun x => ∀ n, h.IsShort a n → h.setting.fibCalls n.toInt ≤ k ∧ x = h.setting.fibOutcome n.toInt)
      (perform host k (.fib a) h)
  | 0, _, _, _, _, _, _, _ => ⟨rfl, Or.inl rfl⟩
  | k + 1, h, rest, a, o, bal, live, builtin => by
    have level : Ends (fun f => f = .stackOverflow ∧
          (k + 1 = 0 ∨ ∃ n, h.IsShort a n ∧ k + 1 < h.setting.fibCalls n.toInt))
        (Brings h {a} fun x => ∀ n, h.IsShort a n →
          (h.setting.full? = .none → 2 ≤ n.toInt → h.setting.deeper.fibCalls (n.toInt - 1) ≤ k) ∧
            x = h.setting.fibOutcome n.toInt)
        (perform host (k + 1) (.fib a) h) := by
      refine bal.fibonacci_exec (host.serves_perform k) (h.setting.deeper.fibCalls · ≤ k) live builtin ?_
      intro n m b g rest hn hlarge hless free same bal' hm
      obtain ⟨o', live', payload⟩ := id hm
      have fits := (bal'.wellFormed.objects b o' live').fits
      rw [payload] at fits
      have call := perform_fib host k bal' live' (by rw [show o'.type = .short from fits]; rfl)
      rw [same] at call
      refine (call.weaken fun f hf => ⟨hf.1, Or.inr ⟨n, hn, ?_⟩⟩).mono fun p brings => brings.mono fun x hx => hx m hm
      have hle : h.setting.deeper.fibCalls m.toInt ≤ h.setting.deeper.fibCalls (n.toInt - 1) :=
        Setting.fibCalls_mono (by omega)
      have hpos := h.setting.deeper.fibCalls_pos m.toInt
      rw [Setting.fibCalls_step free hlarge]
      rcases hf.2 with hzero | ⟨m', hm', few⟩
      · omega
      · cases hm.unique hm'
        omega
    refine level.mono fun p brings => brings.mono fun x hx n hn => ⟨?_, (hx n hn).2⟩
    cases full : h.setting.full? with
    | some limit =>
      rw [Setting.fibCalls_full full]
      exact Nat.le_add_left 1 k
    | none =>
      by_cases hsmall : n.toInt ≤ 1
      · rw [Setting.fibCalls_small hsmall]
        exact Nat.le_add_left 1 k
      · have hlarge : 2 ≤ n.toInt := by omega
        rw [Setting.fibCalls_step full hlarge]
        exact Nat.succ_le_succ ((hx n hn).1 full hlarge)

/-- **`fib` is the Fibonacci number, or the exact error.** In every heap that a balanced run reaches, if blocks and
bytes are not limited, a call at the limit on the depth of recursion is refused, one whose argument is too large for
the levels that are left is refused at the first level too many, and every other gives the number as a short, or an
overflow if it does not fit, which is from 46 on. All this is if the native stack holds as many calls as there are
levels; otherwise the run ends. -/
theorem fib_exact {host : Host κ} (disciplined : host.Disciplined) {c : Config} {h : Heap κ} {held : Multiset Ref}
    (run : Run host 0 (.ofConfig c) 0 h held) (roomy : h.ledger.tracker.Roomy) {a : Ref} {n : Int32} (ha : a ∈ held)
    (short : h.IsShort a n) :
    (host.frames < h.setting.fibCalls n.toInt → host.perform (.fib a) h = .error .stackOverflow) ∧
    (h.setting.fibCalls n.toInt ≤ host.frames →
      (∀ limit, h.ledger.tracker.maxDepth = some limit → limit ≤ h.depth →
        ∃ g, host.perform (.fib a) h = .ok (.error (.exhausted (.recursion limit (h.depth + 1))), g)) ∧
      (∀ limit, h.ledger.tracker.maxDepth = some limit → h.depth < limit → max (limit - h.depth : Nat) 1 < n.toInt →
        ∃ g, host.perform (.fib a) h = .ok (.error (.exhausted (.recursion limit (limit + 1))), g)) ∧
      ((∀ limit, h.ledger.tracker.maxDepth = some limit → h.depth < limit ∧ n.toInt ≤ max (limit - h.depth : Nat) 1) →
        (n.toInt ≤ 45 → ∃ r g v, host.perform (.fib a) h = .ok (.ok r, g) ∧ g.IsShort r v ∧
          v.toInt = fibonacciNumber n.toInt) ∧
        (46 ≤ n.toInt → ∃ g, host.perform (.fib a) h = .ok (.error (.overflow "+"), g)))) := by
  obtain ⟨rest, rfl⟩ := Multiset.exists_cons_of_mem ha
  have bal := run.balanced disciplined (Heap.balanced_ofConfig c)
  rw [← Multiset.singleton_add] at bal
  obtain ⟨o, live, payload⟩ := id short
  have fits := (bal.wellFormed.objects a o live).fits
  rw [payload] at fits
  have fib := perform_fib host host.frames bal live (by rw [show o.type = .short from fits]; rfl)
  -- whatever is returned was expected, and there were calls enough
  have returned : ∀ {x g}, host.perform (.fib a) h = .ok (x, g) → h.setting.fibCalls n.toInt ≤ host.frames ∧
      match h.setting.fibOutcome n.toInt with
      | .ok v => ∃ r, x = .ok r ∧ g.IsShort r v
      | .error e => x = .error e := by
    intro x g done
    have brings := fib.of_ok done
    cases x with
    | ok r =>
      obtain ⟨-, v, hv, fresh⟩ := brings
      obtain ⟨enough, outcome⟩ := hv n short
      rw [← outcome]
      exact ⟨enough, r, rfl, fresh.isShort⟩
    | error e =>
      obtain ⟨enough, outcome⟩ := brings.2 roomy n short
      rw [← outcome]
      exact ⟨enough, rfl⟩
  constructor
  · intro few
    cases done : host.perform (.fib a) h with
    | error f => rw [(fib.of_error done).1]
    | ok p => exact absurd (returned done).1 (by omega)
  intro enough
  obtain ⟨⟨result, g⟩, done⟩ : ∃ p, host.perform (.fib a) h = .ok p := by
    cases done : host.perform (.fib a) h with
    | ok p => exact ⟨p, rfl⟩
    | error f =>
      rcases (fib.of_error done).2 with zero | ⟨n', short', few⟩
      · have := h.setting.fibCalls_pos n.toInt
        omega
      · cases short.unique short'
        omega
  have comes := (returned done).2
  rw [done]
  have refused : ∀ {e}, h.setting.fibOutcome n.toInt = .error e →
      ∃ g', (.ok (result, g) : Except Fault _) = .ok (.error e, g') := by
    intro e he
    rw [he] at comes
    exact ⟨g, congrArg (fun x => Except.ok (x, g)) comes⟩
  refine ⟨fun limit hl met => refused ?_, fun limit hl below large => refused ?_, fun inside => ?_⟩
  · have full : h.setting.full? = some limit := Option.filter_eq_some_iff.mpr ⟨hl, decide_eq_true met⟩
    exact Setting.fibOutcome_full full _
  · rw [Setting.fibOutcome_limited hl below]
    exact if_pos large
  · have number : h.setting.fibOutcome n.toInt = fibonacciShort n.toInt := Setting.fibOutcome_within inside
    refine ⟨fun fits => ?_, fun large => refused ?_⟩
    · rw [number, fibonacciShort, if_pos fits] at comes
      obtain ⟨r, hr, value⟩ := comes
      exact ⟨r, g, _, congrArg (fun x => Except.ok (x, g)) hr, value, toInt_fibonacciNumber fits⟩
    · rw [number, fibonacciShort, if_neg (by omega)]

namespace Stock

/-- A limit on the depth of recursion, or none, and no other; no short is interned. -/
def deepConfig (limit : Option Nat) : Config := { limits := { maxDepth := limit }, shortRange := ⟨0, 0⟩ }

/-- One level deep, with one short in slot 3. -/
def deepen (frames : Nat) (limit : Option Nat) (n : Int32) : Option (Multiset Ref × Tracker × Nat × Option Payload) :=
  ((host frames).play 0 [.enterRecursion, .short n] (.ofConfig (deepConfig limit)) 0).map fun p =>
    (p.2, p.1.ledger.tracker, p.1.depth, (p.1.object? ⟨3⟩).map Object.payload)

theorem exists_deep (frames : Nat) (limit : Option Nat) (n : Int32)
    (hd : deepen frames limit n = some ({⟨3⟩}, .metered { maxDepth := limit } 1 16, 1, some (.short n))) :
    ∃ h, Run (host frames) 0 (.ofConfig (deepConfig limit)) 0 h {⟨3⟩} ∧ h.ledger.tracker.Roomy ∧
      h.ledger.tracker.maxDepth = limit ∧ h.depth = 1 ∧ h.IsShort ⟨3⟩ n := by
  obtain ⟨h, run, seen⟩ := Run.of_play (fun h => (h.ledger.tracker, h.depth, (h.object? ⟨3⟩).map Object.payload))
    (Multiset.zero_le _) hd
  obtain ⟨tracker, rest⟩ := Prod.mk.inj seen
  obtain ⟨depth, object⟩ := Prod.mk.inj rest
  obtain ⟨o, live, payload⟩ := Option.map_eq_some_iff.mp object
  refine ⟨h, run, ?_, ?_, depth, o, live, payload⟩ <;> rw [tracker]
  · exact ⟨rfl, rfl⟩
  · rfl

end Stock

/-- One level below a limit of 5 the fourth number is 5, and the fifth is too deep. At the
limit nothing is called. Without a limit the 50th number does not fit in a short if the stack
is large enough, and a small stack ends the run. -/
theorem fib_exact_deep :
    (∃ (h g : Heap Stock.Name) (r : Ref) (v : Int32),
      Run (Stock.host 8) 0 (.ofConfig (Stock.deepConfig (some 5))) 0 h {⟨3⟩} ∧ h.IsShort ⟨3⟩ 4 ∧ h.depth = 1 ∧
      (Stock.host 8).perform (.fib ⟨3⟩) h = .ok (.ok r, g) ∧ g.IsShort r v ∧ v.toInt = 5) ∧
    (∃ h g : Heap Stock.Name,
      Run (Stock.host 8) 0 (.ofConfig (Stock.deepConfig (some 5))) 0 h {⟨3⟩} ∧ h.IsShort ⟨3⟩ 5 ∧ h.depth = 1 ∧
      (Stock.host 8).perform (.fib ⟨3⟩) h = .ok (.error (.exhausted (.recursion 5 6)), g)) ∧
    (∃ h g : Heap Stock.Name,
      Run (Stock.host 8) 0 (.ofConfig (Stock.deepConfig (some 1))) 0 h {⟨3⟩} ∧ h.IsShort ⟨3⟩ 5 ∧ h.depth = 1 ∧
      (Stock.host 8).perform (.fib ⟨3⟩) h = .ok (.error (.exhausted (.recursion 1 2)), g)) ∧
    (∃ h g : Heap Stock.Name,
      Run (Stock.host 50) 0 (.ofConfig (Stock.deepConfig none)) 0 h {⟨3⟩} ∧ h.IsShort ⟨3⟩ 50 ∧ h.depth = 1 ∧
      (Stock.host 50).perform (.fib ⟨3⟩) h = .ok (.error (.overflow "+"), g)) ∧
    ∃ h : Heap Stock.Name,
      Run (Stock.host 49) 0 (.ofConfig (Stock.deepConfig none)) 0 h {⟨3⟩} ∧ h.IsShort ⟨3⟩ 50 ∧ h.depth = 1 ∧
      (Stock.host 49).perform (.fib ⟨3⟩) h = .error .stackOverflow := by
  have held : (⟨3⟩ : Ref) ∈ ({⟨3⟩} : Multiset Ref) := Multiset.mem_singleton_self _
  refine ⟨?_, ?_, ?_, ?_, ?_⟩
  · obtain ⟨h, run, roomy, hl, hd, short⟩ := Stock.exists_deep 8 (some 5) 4 (by decide +kernel)
    have fib := (fib_exact (Stock.host_disciplined 8) run roomy held short).2
    rw [Heap.setting, hl, hd] at fib
    obtain ⟨r, g, v, done, new, value⟩ := ((fib (by decide)).2.2 (by rintro _ ⟨⟩; decide)).1 (by decide)
    exact ⟨h, g, r, v, run, short, hd, done, new, value⟩
  · obtain ⟨h, run, roomy, hl, hd, short⟩ := Stock.exists_deep 8 (some 5) 5 (by decide +kernel)
    have fib := (fib_exact (Stock.host_disciplined 8) run roomy held short).2
    rw [Heap.setting, hl, hd] at fib
    obtain ⟨g, done⟩ := (fib (by decide)).2.1 5 rfl (by decide) (by decide)
    exact ⟨h, g, run, short, hd, done⟩
  · obtain ⟨h, run, roomy, hl, hd, short⟩ := Stock.exists_deep 8 (some 1) 5 (by decide +kernel)
    have fib := (fib_exact (Stock.host_disciplined 8) run roomy held short).2
    rw [Heap.setting, hl, hd] at fib
    obtain ⟨g, done⟩ := (fib (by decide)).1 1 rfl (by decide)
    exact ⟨h, g, run, short, hd, done⟩
  · obtain ⟨h, run, roomy, hl, hd, short⟩ := Stock.exists_deep 50 none 50 (by decide +kernel)
    have fib := (fib_exact (Stock.host_disciplined 50) run roomy held short).2
    rw [Heap.setting, hl, hd] at fib
    obtain ⟨g, done⟩ := ((fib (by decide)).2.2 nofun).2 (by decide)
    exact ⟨h, g, run, short, hd, done⟩
  · obtain ⟨h, run, roomy, hl, hd, short⟩ := Stock.exists_deep 49 none 50 (by decide +kernel)
    have fib := (fib_exact (Stock.host_disciplined 49) run roomy held short).1
    rw [Heap.setting, hl, hd] at fib
    exact ⟨h, run, short, hd, fib (by decide)⟩

end CountedHeap
