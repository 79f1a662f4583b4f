/-
# JSON documents

An object keeps its fields in order, repeated names included. A string may hold
an escape for half of a surrogate pair: it is well formed but names no text, and
its value is `none`.
-/
namespace CountedHeap

inductive Json where
  | null
  | bool (value : Bool)
  | int (value : Int)
  /-- A number that is not written as an integer, and `-0`, as it stands. -/
  | real (text : String)
  | str (value : Option String)
  | arr (items : List Json)
  | obj (fields : List (Option String × Json))
  deriving Repr, Inhabited

namespace Json

def text (s : String) : Json := .str (some s)

def nat (n : Nat) : Json := .int n

/-- An object with the given fields. -/
def object (fields : List (String × Json)) : Json := .obj (fields.map fun (k, v) => (some k, v))

/-- The value of a field, the first of its name. -/
def field? (name : String) : Json → Option Json
  | .obj fields => (fields.find? (·.1 = some name)).map (·.2)
  | _ => none

end Json

end CountedHeap
