/-
# Equality is that of trees

Two references to built-in values are equal exactly if the trees below them are: a short
never equals a truth value, and a tuple equals only a tuple of the same length with equal
items. The exception is `None`, whose type has no equality. Two `None` cannot be
compared, but as items of tuples they are one object and are not looked at, so that on
tuples equality is an equivalence.

Nothing is asked of the budgets, since a comparison makes nothing; and nothing of the
references, which may have been forged. The native stack has to hold as many calls as
the lower of the two trees has levels.

Key theorem: `equality_of_trees`.
-/
import CountedHeap.Proofs.Operators

namespace CountedHeap

variable {κ : Role → Type}

namespace Reached

variable {host : Host κ} {config : Config} {h : Heap κ} {a b : Ref} {x y : Datum}

theorem consult_compare (reached : Reached host (.ofConfig config) h) (hx : h.Denotes a x) (hy : h.Denotes b y)
    (op : CompareOp) :
    Ends (Overflows host.frames x y) (· = x.compare op y) (host.consult h (.compare op a b)) :=
  consulting_compare host reached.wellFormed hx hy op
    fun _ offers => Handler.compare_denotes host reached.wellFormed reached.lone _ hx hy offers

theorem perform_compare (reached : Reached host (.ofConfig config) h) (hx : h.Denotes a x) (hy : h.Denotes b y)
    (op : CompareOp) :
    Ends (Overflows host.frames x y) (fun p => p.1 = x.compare op y) (host.perform (.compare op a b) h) := by
  rw [host.perform_compare]
  exact compareConsuming_ends host reached.wellFormed reached.lone host.frames hx hy op

/-- Both ways of comparing give the answer for data, if the native stack holds the lower tree. -/
theorem compare_answers (reached : Reached host (.ofConfig config) h) (hx : h.Denotes a x) (hy : h.Denotes b y)
    (enough : min x.height y.height ≤ host.frames) (op : CompareOp) :
    host.consult h (.compare op a b) = .ok (x.compare op y) ∧
      ∃ g, host.perform (.compare op a b) h = .ok (x.compare op y, g) := by
  have holds : ∀ f, ¬ Overflows host.frames x y f := by
    rintro f ⟨-, hlt, hlt'⟩
    omega
  obtain ⟨_, consulted, rfl⟩ := (reached.consult_compare hx hy op).exists_ok holds
  obtain ⟨⟨_, g⟩, performed, rfl⟩ := (reached.perform_compare hx hy op).exists_ok holds
  exact ⟨consulted, g, performed⟩

/-- Tuples are equal if they are the same tree. -/
theorem equal_iff (reached : Reached host (.ofConfig config) h) {xs ys : List Datum} (hx : h.Denotes a (.tuple xs))
    (hy : h.Denotes b (.tuple ys)) (enough : (Datum.tuple xs).height ≤ host.frames) :
    host.consult h (.compare .equal a b) = .ok (.ok true) ↔ Datum.tuple xs = .tuple ys := by
  have notBoth : ¬ (Datum.tuple xs = .none ∧ Datum.tuple ys = .none) := by simp
  rw [(reached.compare_answers hx hy (Nat.le_trans (Nat.min_le_left _ _) enough) .equal).1, Datum.compare_equal,
    if_neg notBoth]
  simp

end Reached

/-- **Equality of built-in values is equality of trees.** Let two references denote data that are not
both `None`, in any heap that can be reached. Comparing them for equality, whether this consumes them
or not, tells whether the data are the same tree and never fails, if the native stack holds as many
calls as the lower tree has levels; and the end of the native stack is all it can run into. Two
`None` cannot be compared. On tuples, equality is an equivalence. -/
theorem equality_of_trees {host : Host κ} {config : Config} {h : Heap κ} (reached : Reached host (.ofConfig config) h) :
    (∀ a b x y, h.Denotes a x → h.Denotes b y → ¬ (x = .none ∧ y = .none) →
      (min x.height y.height ≤ host.frames →
        host.consult h (.compare .equal a b) = .ok (.ok (decide (x = y))) ∧
        ∃ g, host.perform (.compare .equal a b) h = .ok (.ok (decide (x = y)), g)) ∧
      ∀ f, host.consult h (.compare .equal a b) = .error f ∨ host.perform (.compare .equal a b) h = .error f →
        f = .stackOverflow) ∧
    (∀ a b, h.Denotes a .none → h.Denotes b .none →
      host.consult h (.compare .equal a b) = .ok (.error (.unsupported "==" ["NoneType", "NoneType"])) ∧
      ∃ g, host.perform (.compare .equal a b) h = .ok (.error (.unsupported "==" ["NoneType", "NoneType"]), g)) ∧
    Equivalence fun a b : { a : Ref // ∃ xs, h.Denotes a (.tuple xs) ∧ (Datum.tuple xs).height ≤ host.frames } =>
      host.consult h (.compare .equal a b) = .ok (.ok true) := by
  refine ⟨fun a b x y hx hy notBoth => ⟨fun enough => ?_, fun f failed => ?_⟩, fun a b hx hy => ?_, ?_, ?_, ?_⟩
  · have answers := reached.compare_answers hx hy enough .equal
    rwa [Datum.compare_equal, if_neg notBoth] at answers
  · rcases failed with failed | failed
    · exact ((reached.consult_compare hx hy .equal).of_error failed).1
    · exact ((reached.perform_compare hx hy .equal).of_error failed).1
  · exact reached.compare_answers hx hy (Nat.zero_le _) .equal
  · rintro ⟨a, xs, hx, enough⟩
    exact (reached.equal_iff hx hx enough).mpr rfl
  · rintro ⟨a, xs, hx, enough⟩ ⟨b, ys, hy, enough'⟩ equal
    have same := (reached.equal_iff hx hy enough).mp equal
    exact (reached.equal_iff hy hx enough').mpr same.symm
  · rintro ⟨a, xs, hx, enough⟩ ⟨b, ys, hy, enough'⟩ ⟨c, zs, hz, _⟩ equal equal'
    have same := (reached.equal_iff hx hy enough).mp equal
    have same' := (reached.equal_iff hy hz enough').mp equal'
    exact (reached.equal_iff hx hz enough).mpr (same.trans same')

namespace Stock

/-- Five blocks are all there may be, and no calls of the machine. -/
def scantConfig : Config := { sampleConfig with limits := { maxAllocations := some 5, maxDepth := some 0 } }

/-- Two tuples of `None` and 1, and one of `None` and true. -/
def triplets : List (Request Name) :=
  [.none, .short 1, .tuple [⟨0⟩, ⟨3⟩], .none, .short 1, .tuple [⟨0⟩, ⟨5⟩], .none, .bool true, .tuple [⟨0⟩, ⟨2⟩]]

end Stock

/-- With nothing left to allocate, the tuples of `None` and 1 are equal, and the first does not
equal that of `None` and true. -/
theorem equality_of_trees_scant : ∃ h : Heap Stock.Name,
    Run (Stock.host 1) 0 (.ofConfig Stock.scantConfig) 0 h {⟨4⟩, ⟨6⟩, ⟨7⟩} ∧
    (Stock.host 1).consult h (.compare .equal ⟨4⟩ ⟨6⟩) = .ok (.ok true) ∧
    (∃ g, (Stock.host 1).perform (.compare .equal ⟨4⟩ ⟨7⟩) h = .ok (.ok false, g)) ∧
    (Stock.host 1).consult h (.compare .equal ⟨0⟩ ⟨0⟩) =
      .ok (.error (.unsupported "==" ["NoneType", "NoneType"])) := by
  have hplay : ((Stock.host 1).play 0 Stock.triplets (.ofConfig Stock.scantConfig) 0).map
      (fun p => (p.2, [0, 2, 3, 4, 5, 6, 7].map fun i => p.1.object? ⟨i⟩)) =
      some ({⟨4⟩, ⟨6⟩, ⟨7⟩}, [
        some ⟨4, .none, 0, 16, true, .none⟩, some ⟨2, .bool, 0, 16, true, .bool true⟩,
        some ⟨1, .short, 0, 16, false, .short 1⟩, some ⟨1, .tuple, 2, 40, false, .tuple [⟨0⟩, ⟨3⟩]⟩,
        some ⟨1, .short, 0, 16, false, .short 1⟩, some ⟨1, .tuple, 2, 40, false, .tuple [⟨0⟩, ⟨5⟩]⟩,
        some ⟨1, .tuple, 2, 40, false, .tuple [⟨0⟩, ⟨2⟩]⟩]) := by
    decide +kernel
  obtain ⟨h, run, seen⟩ := Run.of_play (fun h => [0, 2, 3, 4, 5, 6, 7].map fun i => h.object? ⟨i⟩)
    (Multiset.zero_le _) hplay
  simp only [List.map_cons, List.map_nil, List.cons.injEq, and_true] at seen
  obtain ⟨zero, two, three, four, five, six, seven⟩ := seen
  have none : h.Denotes ⟨0⟩ .none := Heap.denotes_iff.mpr ⟨_, zero, rfl, .none⟩
  have pair : ∀ {r a : Ref} {x : Datum}, h.Denotes a x →
      h.object? r = some ⟨1, .tuple, 2, 40, false, .tuple [⟨0⟩, a]⟩ → h.Denotes r (.tuple [.none, x]) :=
    fun hx tuple => Heap.denotes_iff.mpr ⟨_, tuple, rfl, .tuple (.cons none (.cons hx .nil))⟩
  have hx := pair (Heap.denotes_iff.mpr ⟨_, three, rfl, .short 1⟩) four
  have hy := pair (Heap.denotes_iff.mpr ⟨_, five, rfl, .short 1⟩) six
  have hz := pair (Heap.denotes_iff.mpr ⟨_, two, rfl, .bool true⟩) seven
  obtain ⟨answers, unsupported, -⟩ := equality_of_trees run.reached
  exact ⟨h, run, ((answers _ _ _ _ hx hy (by decide)).1 (by decide)).1, ((answers _ _ _ _ hx hz (by decide)).1 (by decide)).2,
    (unsupported _ _ none none).1⟩

end CountedHeap
