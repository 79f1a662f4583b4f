/-
# Data and their operators

A datum is what a reference to built-in objects denotes, with nothing of how a heap
represents it: `None`, a truth value, a short, or a tuple of data. Here the operators
are given a meaning on data alone. An operator goes to the first operand, from the
left, whose type has a handler for it, and a handler is a function of data that gives
a datum or an error. So nothing below can depend on which objects there are, on which
of them are interned, or on which parts of a tree are shared.

Two data are equal if they are the same tree. `None` is the exception: its type has no
equality, so `None` cannot be compared with itself (`Datum.compare_equal`).

Key definitions: `Datum`, `Datum.value`, `Datum.unary`, `Datum.binary`, `Datum.power`,
`Datum.compare`, `Datum.truth`, `Datum.length`, `Datum.item`.
-/
import CountedHeap.Proofs.Meaning

namespace CountedHeap

inductive Datum where
  | none
  | bool (value : Bool)
  | short (value : Int32)
  | tuple (items : List Datum)

namespace Datum

/-! ### Trees -/

mutual

/-- The value with this tree. -/
def value : Datum → Value
  | .none => .leaf .none .none
  | .bool v => .leaf .bool (.bool v)
  | .short v => .leaf .short (.short v)
  | .tuple items => .tuple .tuple (values items)

def values : List Datum → List Value
  | [] => []
  | x :: xs => x.value :: values xs

end

mutual

theorem value_injective : ∀ {x y : Datum}, x.value = y.value → x = y
  | .none, y, h => by cases y <;> simp_all [value]
  | .bool v, y, h => by cases y <;> simp_all [value]
  | .short v, y, h => by cases y <;> simp_all [value]
  | .tuple xs, .tuple ys, h => by
    rw [value, value, Value.tuple.injEq] at h
    rw [values_injective h.2]

theorem values_injective : ∀ {xs ys : List Datum}, values xs = values ys → xs = ys
  | [], [], _ => rfl
  | x :: xs, y :: ys, h => by
    rw [values, values, List.cons.injEq] at h
    rw [value_injective h.1, values_injective h.2]

end

mutual

/-- Whether two trees are the same. -/
def same : Datum → Datum → Bool
  | .none, .none => true
  | .bool v, .bool w => v == w
  | .short v, .short w => v == w
  | .tuple xs, .tuple ys => sameAll xs ys
  | _, _ => false

def sameAll : List Datum → List Datum → Bool
  | [], [] => true
  | x :: xs, y :: ys => x.same y && sameAll xs ys
  | _, _ => false

end

mutual

theorem same_iff : ∀ x y : Datum, x.same y = true ↔ x = y
  | .none, y => by cases y <;> simp [same]
  | .bool v, y => by cases y <;> simp [same]
  | .short v, y => by cases y <;> simp [same]
  | .tuple xs, y => by cases y <;> simp [same, sameAll_iff xs]

theorem sameAll_iff : ∀ xs ys : List Datum, sameAll xs ys = true ↔ xs = ys
  | [], ys => by cases ys <;> simp [sameAll]
  | x :: xs, ys => by cases ys <;> simp [sameAll, same_iff x, sameAll_iff xs]

end

instance : DecidableEq Datum := fun x y => decidable_of_iff _ (same_iff x y)

mutual

/-- How many tuples there are, one inside the other. -/
def height : Datum → Nat
  | .tuple items => heightAll items + 1
  | _ => 0

def heightAll : List Datum → Nat
  | [] => 0
  | x :: xs => max x.height (heightAll xs)

end

theorem height_lt {x : Datum} : ∀ {xs : List Datum}, x ∈ xs → x.height < (tuple xs).height
  | y :: ys, hx => by
    show x.height < max y.height (heightAll ys) + 1
    rcases List.mem_cons.mp hx with rfl | hx
    · omega
    · have hlt : x.height < heightAll ys + 1 := height_lt hx
      omega

/-! ### Types -/

def type : Datum → TypeId
  | .none => .none
  | .bool _ => .bool
  | .short _ => .short
  | .tuple _ => .tuple

def typeName : Datum → String
  | .none => "NoneType"
  | .bool _ => "bool"
  | .short _ => "short"
  | .tuple _ => "tuple"

def descriptor {κ : Role → Type} : Datum → Descriptor κ
  | .none => Registry.noneType
  | .bool _ => Registry.boolType
  | .short _ => Registry.shortType
  | .tuple _ => Registry.tupleType

def bool? : Datum → Option Bool
  | .bool v => some v
  | _ => Option.none

def short? : Datum → Option Int32
  | .short v => some v
  | _ => Option.none

def items? : Datum → Option (List Datum)
  | .tuple items => some items
  | _ => Option.none

def asShort (op : String) : Datum → Except RunError Int32
  | .short v => .ok v
  | x => .error (.typeMismatch op "short" x.typeName)

def asTuple (op : String) : Datum → Except RunError (List Datum)
  | .tuple items => .ok items
  | x => .error (.typeMismatch op "tuple" x.typeName)

/-- The handler that the type of a datum has. -/
def unary? : UnaryOp → Datum → Option (Builtin .unary)
  | .negative, .short _ => some .shortNegative
  | .positive, .short _ => some .shortPositive
  | .absolute, .short _ => some .shortAbsolute
  | _, _ => Option.none

@[inherit_doc unary?] def binary? : BinaryOp → Datum → Option (Builtin .binary)
  | .add, .short _ => some .shortAdd
  | .subtract, .short _ => some .shortSubtract
  | .multiply, .short _ => some .shortMultiply
  | .remainder, .short _ => some .shortRemainder
  | .floorDivide, .short _ => some .shortFloorDivide
  | .concat, .tuple _ => some .tupleConcat
  | .subscript, .tuple _ => some .tupleSubscript
  | _, _ => Option.none

@[inherit_doc unary?] def power? : Datum → Option (Builtin .ternary)
  | .short _ => some .shortPower
  | _ => Option.none

@[inherit_doc unary?] def comparison? : CompareOp → Datum → Option (Builtin .comparison)
  | .equal, .bool _ => some .boolEqual
  | .equal, .short _ => some .shortEqual
  | .equal, .tuple _ => some .tupleEqual
  | .lessOrEqual, .short _ => some .shortLessOrEqual
  | _, _ => Option.none

section Descriptors

variable {κ : Role → Type}

theorem type_isBuiltin (x : Datum) : x.type.isBuiltin = true := by
  cases x <;> rfl

theorem type_eq_none (x : Datum) : x.type = .none ↔ x = .none := by
  cases x <;> simp [type, TypeId.none, TypeId.bool, TypeId.short, TypeId.tuple]

theorem builtin_get? (x : Datum) : Registry.builtin.get? x.type = some (x.descriptor : Descriptor κ) := by
  cases x <;> rfl

theorem descriptor_name (x : Datum) : (x.descriptor : Descriptor κ).name = x.typeName := by
  cases x <;> rfl

theorem descriptor_unary? (op : UnaryOp) (x : Datum) :
    (x.descriptor : Descriptor κ).unary? op = (x.unary? op).map .builtin := by
  cases x <;> cases op <;> rfl

theorem descriptor_binary? (op : BinaryOp) (x : Datum) :
    (x.descriptor : Descriptor κ).binary? op = (x.binary? op).map .builtin := by
  cases x <;> cases op <;> rfl

theorem descriptor_power? (x : Datum) : (x.descriptor : Descriptor κ).power? = x.power?.map .builtin := by
  cases x <;> rfl

theorem descriptor_comparison? (op : CompareOp) (x : Datum) :
    (x.descriptor : Descriptor κ).comparison? op = (x.comparison? op).map .builtin := by
  cases x <;> cases op <;> rfl

end Descriptors

/-! ### What handlers make of data -/

/-- The result of checked arithmetic. -/
def checked (op : String) : Option Int32 → Except RunError Datum
  | some v => .ok (.short v)
  | Option.none => .error (.overflow op)

def shortUnary (op : UnaryOp) (f : Int32 → Option Int32) (x : Datum) : Except RunError Datum := do
  let v ← x.asShort op.symbol
  checked op.symbol (f v)

def shortArithmetic (op : BinaryOp) (f : Int32 → Int32 → Option Int32) (x y : Datum) : Except RunError Datum := do
  let v ← x.asShort op.symbol
  let w ← y.asShort op.symbol
  checked op.symbol (f v w)

def shortDivision (op : BinaryOp) (f : Int32 → Int32 → Option Int32) (x y : Datum) : Except RunError Datum := do
  let v ← x.asShort op.symbol
  let w ← y.asShort op.symbol
  if w = 0 then .error (.zeroDivision op.symbol) else checked op.symbol (f v w)

/-- The exponent is looked at before the modulus. -/
def shortPower (x y z : Datum) : Except RunError Datum := do
  let v ← x.asShort powerSymbol
  let e ← y.asShort powerSymbol
  if e < 0 then .error (.invalidOperand powerSymbol "negative exponent")
  else if z = .none then checked powerSymbol (Word.pow? v e.toInt.toNat)
  else do
    let m ← z.asShort powerSymbol
    if m = 0 then .error (.invalidOperand powerSymbol "modulus cannot be zero")
    else .ok (.short (Word.powMod v e.toInt.toNat m))

def tupleConcat (x y : Datum) : Except RunError Datum := do
  let xs ← x.asTuple BinaryOp.concat.symbol
  let ys ← y.asTuple BinaryOp.concat.symbol
  return .tuple (xs ++ ys)

/-- The item of a tuple at an index, counted from the end if it is negative. -/
def item (op : String) (index : Int) (x : Datum) : Except RunError Datum := do
  let xs ← x.asTuple op
  let position := if index < 0 then index + xs.length else index
  if position < 0 then .error (.invalidOperand op "tuple index out of range")
  else
    match xs[position.toNat]? with
    | some y => .ok y
    | Option.none => .error (.invalidOperand op "tuple index out of range")

def tupleSubscript (x y : Datum) : Except RunError Datum := do
  let index ← y.asShort "short"
  x.item BinaryOp.subscript.symbol index.toInt

def shortLessOrEqual (x y : Datum) : Except RunError Bool := do
  let v ← x.asShort CompareOp.lessOrEqual.symbol
  let w ← y.asShort CompareOp.lessOrEqual.symbol
  return decide (v ≤ w)

end Datum

namespace Builtin

def unary : Builtin .unary → Datum → Except RunError Datum
  | .shortNegative => Datum.shortUnary .negative Word.neg?
  | .shortPositive => Datum.shortUnary .positive some
  | .shortAbsolute => Datum.shortUnary .absolute Word.abs?

def binary : Builtin .binary → Datum → Datum → Except RunError Datum
  | .shortAdd => Datum.shortArithmetic .add Word.add?
  | .shortSubtract => Datum.shortArithmetic .subtract Word.sub?
  | .shortMultiply => Datum.shortArithmetic .multiply Word.mul?
  | .shortRemainder => Datum.shortDivision .remainder (some <| Word.floorMod · ·)
  | .shortFloorDivide => Datum.shortDivision .floorDivide Word.floorDiv?
  | .tupleConcat => Datum.tupleConcat
  | .tupleSubscript => Datum.tupleSubscript

def ternary : Builtin .ternary → Datum → Datum → Datum → Except RunError Datum
  | .shortPower => Datum.shortPower

/-- The three equalities are one, that of trees. -/
def comparison : Builtin .comparison → Datum → Datum → Except RunError Bool
  | .boolEqual, x, y | .shortEqual, x, y | .tupleEqual, x, y => .ok (decide (x = y))
  | .shortLessOrEqual, x, y => x.shortLessOrEqual y

end Builtin

/-! ### Operators -/

namespace Datum

/-- The first handler that an operand's type has, from the left. -/
def offered {α : Type} (op : String) (find : Datum → Option α) (operands : List Datum) : Except RunError α :=
  (operands.findSome? find).elim (.error (.unsupported op (operands.map typeName))) .ok

theorem offered_pair {α : Type} (op : String) (find : Datum → Option α) (x y : Datum) : offered op find [x, y] =
    ((find x).or (find y)).elim (.error (.unsupported op [x.typeName, y.typeName])) .ok := by
  cases hx : find x <;> cases hy : find y <;> simp [offered, hx, hy]

theorem offered_ok {α : Type} {op : String} {find : Datum → Option α} {operands : List Datum} {f : α}
    (h : offered op find operands = .ok f) : ∃ x ∈ operands, find x = some f := by
  cases found : operands.findSome? find with
  | some f' =>
    rw [offered, found] at h
    cases h
    exact List.exists_of_findSome?_eq_some found
  | none =>
    rw [offered, found] at h
    cases h

def unary (op : UnaryOp) (x : Datum) : Except RunError Datum := do
  let f ← offered op.symbol (unary? op) [x]
  f.unary x

def binary (op : BinaryOp) (x y : Datum) : Except RunError Datum := do
  let f ← offered op.symbol (binary? op) [x, y]
  f.binary x y

def power (x y z : Datum) : Except RunError Datum := do
  let f ← offered powerSymbol power? [x, y, z]
  f.ternary x y z

def compare (op : CompareOp) (x y : Datum) : Except RunError Bool := do
  let f ← offered op.symbol (comparison? op) [x, y]
  f.comparison x y

/-- `None`, false, 0 and the empty tuple are false, all else is true. -/
def truth : Datum → Bool
  | .none => false
  | .bool v => v
  | .short v => v ≠ 0
  | .tuple items => 0 < items.length

def length : Datum → Except RunError Nat
  | .tuple items => .ok items.length
  | x => .error (.unsupported lengthSymbol [x.typeName])

/-- **Equality is that of trees**, but `None` cannot be compared with itself. -/
theorem compare_equal (x y : Datum) : x.compare .equal y =
    if x = .none ∧ y = .none then .error (.unsupported "==" ["NoneType", "NoneType"]) else .ok (decide (x = y)) := by
  by_cases both : x = .none ∧ y = .none
  · obtain ⟨rfl, rfl⟩ := both
    rfl
  · rw [if_neg both]
    cases x <;> cases y <;> first | rfl | exact absurd ⟨rfl, rfl⟩ both

example : Datum.none.compare .equal .none = .error (.unsupported "==" ["NoneType", "NoneType"]) := rfl

example : (Datum.tuple [.none]).compare .equal (.tuple [.none]) = .ok true := rfl

section Equalities

variable {op : CompareOp} {x y : Datum}

theorem bool?_eq (offers : x.comparison? op = some .boolEqual ∨ y.comparison? op = some .boolEqual) :
    (x.bool?.isSome && x.bool? == y.bool?) = decide (x = y) := by
  cases op <;> cases x <;> cases y <;> simp_all [comparison?, bool?]
  rfl

theorem short?_eq (offers : x.comparison? op = some .shortEqual ∨ y.comparison? op = some .shortEqual) :
    (x.short?.isSome && x.short? == y.short?) = decide (x = y) := by
  cases op <;> cases x <;> cases y <;> simp_all [comparison?, short?]
  rfl

theorem items?_eq (offers : x.comparison? op = some .tupleEqual ∨ y.comparison? op = some .tupleEqual) :
    (∃ xs ys, x = .tuple xs ∧ y = .tuple ys) ∨ (x.items? = Option.none ∨ y.items? = Option.none) ∧ x ≠ y := by
  cases op <;> cases x <;> cases y <;> simp_all [comparison?, items?]

end Equalities

end Datum

end CountedHeap
