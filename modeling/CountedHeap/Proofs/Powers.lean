/-
# Powers are exact

A power of shorts without a modulus is that of integers if it fits in 32 bits, and an
overflow only if it does not. With a modulus it always fits: it is the remainder of the
power, rounded down, for exponents as great as a short can be and for every modulus but
zero. So where a power fits, to take it modulo a number and to take its remainder by
that number are the same (`power_exact`).

Key theorems: `Run.after`, `power_exact`.
-/
import CountedHeap.Proofs.Arithmetic
import CountedHeap.Proofs.Rationing

namespace CountedHeap

variable {κ : Role → Type}

/-! ### Powers of numbers -/

section Results

variable {x e m : Int32}

theorem toInt_neg_iff : e < 0 ↔ e.toInt < 0 := Int32.lt_iff_toInt_lt

theorem power_number : Matches Datum.IsNumber (Datum.power (.short x) (.short e) .none)
    (if e.toInt < 0 then .error (.invalidOperand powerSymbol "negative exponent")
      else exactly powerSymbol (x.toInt ^ e.toInt.toNat)) := by
  rw [show Datum.power (.short x) (.short e) .none =
    if e < 0 then .error (.invalidOperand powerSymbol "negative exponent")
    else Datum.checked powerSymbol (Word.pow? x e.toInt.toNat) from rfl]
  by_cases he : e < 0
  · rw [if_pos he, if_pos (toInt_neg_iff.mp he)]
    exact rfl
  · rw [if_neg he, if_neg (mt toInt_neg_iff.mpr he), Word.pow?_eq]
    exact checked_exactly _ _

theorem powerModulo_number : Matches Datum.IsNumber (Datum.power (.short x) (.short e) (.short m))
    (if e.toInt < 0 then .error (.invalidOperand powerSymbol "negative exponent")
      else if m.toInt = 0 then .error (.invalidOperand powerSymbol "modulus cannot be zero")
      else .ok ((x.toInt ^ e.toInt.toNat).fmod m.toInt)) := by
  have zero : m.toInt = 0 ↔ m = 0 := Int32.toInt_inj (y := 0)
  rw [show Datum.power (.short x) (.short e) (.short m) =
    if e < 0 then .error (.invalidOperand powerSymbol "negative exponent")
    else if m = 0 then .error (.invalidOperand powerSymbol "modulus cannot be zero")
    else .ok (.short (Word.powMod x e.toInt.toNat m)) from rfl]
  by_cases he : e < 0
  · rw [if_pos he, if_pos (toInt_neg_iff.mp he)]
    exact rfl
  rw [if_neg he, if_neg (mt toInt_neg_iff.mpr he)]
  by_cases hm : m = 0
  · rw [if_pos hm, if_pos (zero.mpr hm)]
    exact rfl
  · rw [if_neg hm, if_neg (mt zero.mp hm)]
    exact ⟨_, rfl, Word.toInt_powMod x hm _⟩

end Results

/-! ### One request after the other -/

theorem Tracker.roomy_iff {t : Tracker} :
    t.Roomy ↔ ∀ limits, t.limits? = some limits → limits.maxAllocations = none ∧ limits.maxMemory = none := by
  cases t <;> simp [Tracker.Roomy, Tracker.limits?]

theorem Host.perform_roomy (host : Host κ) {h g : Heap κ} (wf : h.WellFormed) (r : Request κ) {x : r.Answer}
    (done : host.perform r h = .ok (x, g)) (roomy : h.ledger.tracker.Roomy) : g.ledger.tracker.Roomy := by
  have evolves : Evolves h g := (perform_stepwise host host.frames r h).of_ok done
  rw [Tracker.roomy_iff, evolves.limits?_eq wf]
  exact Tracker.roomy_iff.mp roomy

/-- **After a request**, the run goes on with what it gave, there is still room, and what else is held denotes
what it did. -/
theorem Run.after {host : Host κ} (disciplined : host.Disciplined) {c : Config} {h g : Heap κ} {rest : Multiset Ref}
    (r : Request κ) (run : Run host 0 (.ofConfig c) 0 h (r.consumes + rest)) (roomy : h.ledger.tracker.Roomy)
    (borrowed : ∀ a ∈ r.borrows, a ∈ rest) {x : r.Answer} (done : host.perform r h = .ok (x, g)) :
    Run host 0 (.ofConfig c) 0 g (r.makes x + host.forgets r h + rest) ∧ g.ledger.tracker.Roomy ∧
      ∀ a d, a ∈ rest → h.Denotes a d → g.Denotes a d := by
  have bal := run.balanced disciplined (Heap.balanced_ofConfig c)
  refine ⟨run.perform r borrowed (Multiset.zero_le _) done, host.perform_roomy bal.wellFormed r done roomy, ?_⟩
  rintro a d ha ⟨n, hv⟩
  have step : Run host rest h (r.consumes + rest) g _ :=
    .perform r (.start (Multiset.le_add_left _ _)) borrowed le_rfl done
  exact ⟨n, step.value?_kept disciplined bal ha hv⟩

/-- A power that fits is taken, and then its remainder. -/
theorem Run.remainder_of_power {host : Host κ} (disciplined : host.Disciplined) {c : Config} {h : Heap κ}
    {held : Multiset Ref} (run : Run host 0 (.ofConfig c) 0 h held) (roomy : h.ledger.tracker.Roomy) {a b z d : Ref}
    {x e m : Int32} (supplied : h.Supplies held [a, b, z, d] [.short x, .short e, .none, .short m]) (he : 0 ≤ e.toInt)
    (hm : m.toInt ≠ 0) (fits : Word.Fits (x.toInt ^ e.toInt.toNat)) :
    ∃ r g r' g' w, host.perform (.power a b z) h = .ok (.ok r, g) ∧
      host.perform (.binary .remainder r d) g = .ok (.ok r', g') ∧ g'.IsShort r' w ∧
      w.toInt = (x.toInt ^ e.toInt.toNat).fmod m.toInt := by
  obtain ⟨rest, rfl⟩ := Multiset.le_iff_exists_add.mp supplied.within
  rw [show (([a, b, z, d] : List Ref) : Multiset Ref) = ([a, b, z] : List Ref) + {d} from rfl, add_assoc]
    at run supplied
  obtain ⟨hx, hy, hz, hd, -⟩ : h.Denotes a _ ∧ h.Denotes b _ ∧ h.Denotes z _ ∧ h.Denotes d _ ∧ _ := by
    simpa only [List.forall₂_cons] using supplied.denote
  have first := run.power_yields disciplined roomy
    ⟨Multiset.le_add_right _ _, .cons hx (.cons hy (.cons hz .nil))⟩ power_number
  rw [if_neg (Int.not_lt.mpr he), exactly, if_pos fits] at first
  obtain ⟨r, g, p, done, short, hp, -⟩ := first
  obtain ⟨run', roomy', kept⟩ := Run.after disciplined (.power a b z) run roomy (List.forall_mem_nil _) done
  have bal := run'.balanced disciplined (Heap.balanced_ofConfig c)
  have supplied' : g.Supplies ({r} + host.forgets (.power a b z) h + ({d} + rest)) [r, d] [.short p, .short m] := by
    refine ⟨?_, .cons (short.denotes bal.wellFormed) (.cons (kept d _ (by simp) hd) .nil)⟩
    exact add_le_add (Multiset.le_add_right {r} _) (Multiset.le_add_right {d} _)
  have last := run'.binary_yields disciplined roomy' supplied' .remainder remainder_number
  rw [if_neg hm, Word.floor_div hm, ← Int.fmod_def, hp] at last
  obtain ⟨r', g', w, done', short', hw, -⟩ := last
  exact ⟨r, g, r', g', w, done, done', short', hw⟩

/-- **Powers of shorts are exact.** In any state of a balanced run with no limit on blocks and bytes, a power of
shorts that are held is that of integers, or an overflow if it does not fit in 32 bits; with a modulus it is the
remainder of that of integers in a division rounded down, and always fits. A negative exponent is refused, and after
that a modulus of zero. No product in a round of the modular loop leaves 64 bits. -/
theorem power_exact {host : Host κ} (disciplined : host.Disciplined) {c : Config} {h : Heap κ}
    {held : Multiset Ref} (run : Run host 0 (.ofConfig c) 0 h held) (roomy : h.ledger.tracker.Roomy) :
    (∀ a b z x e, h.Supplies held [a, b, z] [.short x, .short e, .none] →
      h.Yields
        (if e.toInt < 0 then .error (.invalidOperand "** or pow()" "negative exponent")
          else exactly "** or pow()" (x.toInt ^ e.toInt.toNat))
        (host.perform (.power a b z) h)) ∧
    (∀ a b d x e m, h.Supplies held [a, b, d] [.short x, .short e, .short m] →
      h.Yields
        (if e.toInt < 0 then .error (.invalidOperand "** or pow()" "negative exponent")
          else if m.toInt = 0 then .error (.invalidOperand "** or pow()" "modulus cannot be zero")
          else .ok ((x.toInt ^ e.toInt.toNat).fmod m.toInt))
        (host.perform (.power a b d) h)) ∧
    (∀ a b z d x e m, h.Supplies held [a, b, z, d] [.short x, .short e, .none, .short m] → 0 ≤ e.toInt → m.toInt ≠ 0 →
      Word.Fits (x.toInt ^ e.toInt.toNat) →
      ∃ r g r' g' r'' g'' v, host.perform (.power a b z) h = .ok (.ok r, g) ∧
        host.perform (.binary .remainder r d) g = .ok (.ok r', g') ∧ g'.IsShort r' v ∧
        host.perform (.power a b d) h = .ok (.ok r'', g'') ∧ g''.IsShort r'' v) ∧
    ∀ (x m : Int32) (e : Nat), m ≠ 0 →
      (0 < m.toInt → 0 ≤ (Word.powMod x e m).toInt ∧ (Word.powMod x e m).toInt < m.toInt) ∧
      (m.toInt < 0 → m.toInt < (Word.powMod x e m).toInt ∧ (Word.powMod x e m).toInt ≤ 0) ∧
      (∀ acc base k,
        Word.PowModRound (Word.wideModulus m) (1 % Word.wideModulus m) (Word.wideBase x m) e acc base k →
        Word.powModLoop (Word.wideModulus m) (1 % Word.wideModulus m) (Word.wideBase x m) e =
          Word.powModLoop (Word.wideModulus m) acc base k ∧
        Word.FitsWide (acc.toInt * base.toInt) ∧ Word.FitsWide (base.toInt * base.toInt)) ∧
      ∃ v, Word.ofInt? (Word.widePow x e m).toInt = some v ∧ Word.powMod x e m = v := by
  have none : ∀ a b z x e, h.Supplies held [a, b, z] [.short x, .short e, .none] → _ :=
    fun a b z x e supplied => run.power_yields disciplined roomy supplied power_number
  have modulo : ∀ a b d x e m, h.Supplies held [a, b, d] [.short x, .short e, .short m] → _ :=
    fun a b d x e m supplied => run.power_yields disciplined roomy supplied powerModulo_number
  refine ⟨none, modulo, fun a b z d x e m supplied he hm fits => ?_, fun x m e hm => ?_⟩
  · have within : (([a, b, d] : List Ref) : Multiset Ref) ≤ held :=
      le_trans (List.Sublist.subperm (.cons_cons a (.cons_cons b (.cons z (.refl [d]))))) supplied.within
    obtain ⟨hx, hy, -, hd, -⟩ : h.Denotes a _ ∧ h.Denotes b _ ∧ _ ∧ h.Denotes d _ ∧ _ := by
      simpa only [List.forall₂_cons] using supplied.denote
    obtain ⟨r, g, r', g', w, done, done', short, hw⟩ := run.remainder_of_power disciplined roomy supplied he hm fits
    have direct := modulo a b d x e m ⟨within, .cons hx (.cons hy (.cons hd .nil))⟩
    rw [if_neg (Int.not_lt.mpr he), if_neg hm] at direct
    obtain ⟨r'', g'', v, done'', short'', hv, -⟩ := direct
    have same : w = v := Int32.toInt_inj.mp (hw.trans hv.symm)
    exact ⟨r, g, r', g', r'', g'', w, done, done', short, done'', same ▸ short''⟩
  · have value := Word.toInt_powMod x hm e
    have side := Word.fmod_side (n := x.toInt ^ e) (Word.toInt_ne_zero.mpr hm)
    refine ⟨fun pos => ?_, fun neg => ?_, fun acc base k round => ⟨round.same, Word.powModRound_fits hm round⟩,
      _, Word.powMod_found x hm e, rfl⟩ <;> rw [value] <;> omega

namespace Stock

/-- -2, 31 and 2, -7 and `None`. -/
def raising : List (Request Name) := [.short (-2), .short 31, .short 2, .short (-7), .none]

end Stock

/-- -2 to the power of 31 is the least short, and modulo -7 it is -2; for 2 it does not fit. -/
theorem power_exact_least : ∃ h : Heap Stock.Name,
    Run (Stock.host 8) 0 (.ofConfig Stock.sampleConfig) 0 h {⟨3⟩, ⟨4⟩, ⟨5⟩, ⟨6⟩, ⟨0⟩} ∧
    h.Yields (.ok (-2147483648)) ((Stock.host 8).perform (.power ⟨3⟩ ⟨4⟩ ⟨0⟩) h) ∧
    h.Yields (.error (.overflow "** or pow()")) ((Stock.host 8).perform (.power ⟨5⟩ ⟨4⟩ ⟨0⟩) h) ∧
    h.Yields (.error (.invalidOperand "** or pow()" "negative exponent"))
      ((Stock.host 8).perform (.power ⟨5⟩ ⟨3⟩ ⟨0⟩) h) ∧
    h.Yields (.ok (-2)) ((Stock.host 8).perform (.power ⟨3⟩ ⟨4⟩ ⟨6⟩) h) ∧
    ∃ r g r' g' v, (Stock.host 8).perform (.power ⟨3⟩ ⟨4⟩ ⟨0⟩) h = .ok (.ok r, g) ∧
      (Stock.host 8).perform (.binary .remainder r ⟨6⟩) g = .ok (.ok r', g') ∧ g'.IsShort r' v ∧
      ∃ r'' g'', (Stock.host 8).perform (.power ⟨3⟩ ⟨4⟩ ⟨6⟩) h = .ok (.ok r'', g'') ∧ g''.IsShort r'' v := by
  have hplay : ((Stock.host 8).play 0 Stock.raising (.ofConfig Stock.sampleConfig) 0).map
      (fun p => (p.2, p.1.ledger.tracker, [3, 4, 5, 6, 0].map fun i => p.1.object? ⟨i⟩)) =
      some ({⟨3⟩, ⟨4⟩, ⟨5⟩, ⟨6⟩, ⟨0⟩}, .unmetered, [
        some ⟨1, .short, 0, 16, false, .short (-2)⟩, some ⟨1, .short, 0, 16, false, .short 31⟩,
        some ⟨1, .short, 0, 16, false, .short 2⟩, some ⟨1, .short, 0, 16, false, .short (-7)⟩,
        some ⟨2, .none, 0, 16, true, .none⟩]) := by
    decide +kernel
  obtain ⟨h, run, seen⟩ := Run.of_play
    (fun h => (h.ledger.tracker, [3, 4, 5, 6, 0].map fun i => h.object? ⟨i⟩)) (Multiset.zero_le _) hplay
  simp only [List.map_cons, List.map_nil, Prod.mk.injEq, List.cons.injEq, and_true] at seen
  obtain ⟨tracker, three, four, five, six, zero⟩ := seen
  have short : ∀ {r : Ref} {v : Int32}, h.object? r = some ⟨1, .short, 0, 16, false, .short v⟩ →
      h.Denotes r (.short v) :=
    fun live => Heap.denotes_iff.mpr ⟨_, live, rfl, .short _⟩
  have none : h.Denotes ⟨0⟩ .none := Heap.denotes_iff.mpr ⟨_, zero, rfl, .none⟩
  have modulo : h.Supplies {⟨3⟩, ⟨4⟩, ⟨5⟩, ⟨6⟩, ⟨0⟩} [⟨3⟩, ⟨4⟩, ⟨6⟩] [.short (-2), .short 31, .short (-7)] :=
    ⟨by decide, .cons (short three) (.cons (short four) (.cons (short six) .nil))⟩
  have both : h.Supplies {⟨3⟩, ⟨4⟩, ⟨5⟩, ⟨6⟩, ⟨0⟩} [⟨3⟩, ⟨4⟩, ⟨0⟩, ⟨6⟩] [.short (-2), .short 31, .none, .short (-7)] :=
    ⟨by decide, .cons (short three) (.cons (short four) (.cons none (.cons (short six) .nil)))⟩
  obtain ⟨plain, modular, agree, -⟩ := power_exact (Stock.host_disciplined 8) run (tracker ▸ trivial)
  obtain ⟨r, g, r', g', r'', g'', v, done, done', holds, done'', holds''⟩ :=
    agree _ _ _ _ _ _ _ both (by decide) (by decide) (by decide)
  refine ⟨h, run, ?_, ?_, ?_, modular _ _ _ _ _ _ modulo,
    r, g, r', g', v, done, done', holds, r'', g'', done'', holds''⟩
  · exact plain ⟨3⟩ ⟨4⟩ ⟨0⟩ (-2) 31 ⟨by decide, .cons (short three) (.cons (short four) (.cons none .nil))⟩
  · exact plain ⟨5⟩ ⟨4⟩ ⟨0⟩ 2 31 ⟨by decide, .cons (short five) (.cons (short four) (.cons none .nil))⟩
  · exact plain ⟨5⟩ ⟨3⟩ ⟨0⟩ 2 (-2) ⟨by decide, .cons (short five) (.cons (short three) (.cons none .nil))⟩

end CountedHeap
