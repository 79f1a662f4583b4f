/-
# The desk of a command

A command works on one heap and on the names of its session. The references it
consumes are made from left to right before it starts; if one cannot be made,
those made before it are given back and the command is refused.
-/
import CountedHeap.Session.Command

namespace CountedHeap
namespace Session

/-- The names that all heaps of a session share. -/
structure Names where
  refs : Std.TreeMap String Ref := {}
  types : Std.TreeMap String TypeId := {}
  snapshots : Std.TreeMap String Snapshot := {}

namespace Names

def bind (n : Names) (name : String) (r : Ref) : Names := { n with refs := n.refs.insert name r }

def unbind (n : Names) (name : String) : Names := { n with refs := n.refs.erase name }

def bindType (n : Names) (label : String) (t : TypeId) : Names := { n with types := n.types.insert label t }

def bindSnapshot (n : Names) (name : String) (s : Snapshot) : Names :=
  { n with snapshots := n.snapshots.insert name s }

end Names

variable {κ : Role → Type}

/-- What one command works on: a heap and the session's names. -/
structure Desk (κ : Role → Type) where
  heap : Heap κ
  names : Names

abbrev DeskM (κ : Role → Type) := ExceptT Refusal (StateT (Desk κ) (Except Fault))

namespace DeskM

/-- An operation on the heap that cannot fail. -/
def sure {α : Type} (m : HeapM κ α) : DeskM κ α := ExceptT.lift fun d => do
  let ⟨heap, names⟩ := d
  let (a, heap) ← m heap
  return (a, ⟨heap, names⟩)

def lookup {α : Type} (names : Std.TreeMap String α) (name : String) : DeskM κ α :=
  match names[name]? with
  | some a => return a
  | none => throw (.unbound name)

/-- An operation on the heap whose failure refuses the command. -/
def tried {α : Type} (m : RunM κ α) : DeskM κ α := do
  match ← sure m.run with
  | .ok a => return a
  | .error e => throw (.failed e)

/-- Reads the heap. -/
def reading {α : Type} (f : Heap κ → Except Fault α) : DeskM κ α := do
  let d ← get
  f d.heap

def namedRef (name : String) : DeskM κ Ref := do lookup (← get).names.refs name

def namedType (label : String) : DeskM κ TypeId := do lookup (← get).names.types label

def namedSnapshot (name : String) : DeskM κ Snapshot := do lookup (← get).names.snapshots name

/-- Changes the names. -/
def rename (f : Names → Names) : DeskM κ Unit := modify fun ⟨heap, names⟩ => ⟨heap, f names⟩

def releaseAll (refs : List Ref) : DeskM κ Unit := sure (modify (·.releaseAll refs))

/-- If the command is refused meanwhile, the references are given back. -/
def guarding {α : Type} (refs : List Ref) (m : DeskM κ α) : DeskM κ α :=
  tryCatch m fun cause => do
    releaseAll refs
    throw cause

end DeskM

open DeskM

mutual

/-- Makes the reference that an operand asks for. -/
def Operand.eval : Operand → DeskM κ Ref
  | .move name => do
    let r ← namedRef name
    rename (·.unbind name)
    return r
  | .share name => do
    let r ← namedRef name
    sure (Heap.newRef r)
  | .none => sure Heap.none
  | .bool value => sure (Heap.bool value)
  | .short value => tried (Heap.short value)
  | .tuple items => do
    let refs ← evalAll [] items
    tried (Heap.tuple refs)

/-- Makes the references of several operands; `made` are those before them. -/
def evalAll (made : List Ref) : List Operand → DeskM κ (List Ref)
  | [] => return made
  | operand :: rest => do
    let r ← guarding made operand.eval
    evalAll (made ++ [r]) rest

end

/-- The references of two operands. -/
def evalTwo (a b : Operand) : DeskM κ (Ref × Ref) := do
  let x ← a.eval
  let y ← guarding [x] b.eval
  return (x, y)

/-- The references of three operands. -/
def evalThree (a b c : Operand) : DeskM κ (Ref × Ref × Ref) := do
  let (x, y) ← evalTwo a b
  let z ← guarding [x, y] c.eval
  return (x, y, z)

def view (r : Ref) : DeskM κ View := do
  let object ← reading (·.get r)
  let typeName ← reading (·.typeName r)
  return { ref := r, typeName, object }

end Session
end CountedHeap
