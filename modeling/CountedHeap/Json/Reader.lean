/-
# Reading JSON

A machine that takes one token at a time. Arrays and objects that are still open
wait on a stack, so nesting may be as deep as the text is long.
-/
import CountedHeap.Json.Scanner

namespace CountedHeap
namespace Json

/-- An open array or object with what it holds so far, the latest first. -/
inductive Frame where
  | arr (items : List Json)
  | obj (fields : List (Option String × Json))
  /-- An object whose field `name` has no value yet. -/
  | field (fields : List (Option String × Json)) (name : Option String)
  deriving Repr, Inhabited

/-- What the reader expects next. -/
inductive Expect where
  | value
  /-- The first value of an array, or its end. -/
  | firstItem
  /-- The first name of an object, or its end. -/
  | firstName
  | name
  | colon
  /-- A comma, or the end of what is open. -/
  | next
  /-- Nothing: the document is complete. -/
  | finished (document : Json)
  deriving Repr, Inhabited

/-- A value is complete: it goes into what is open, or is the document. -/
def complete (value : Json) : List Frame → Option (List Frame × Expect)
  | [] => some ([], .finished value)
  | .arr items :: stack => some (.arr (value :: items) :: stack, .next)
  | .field fields name :: stack => some (.obj ((name, value) :: fields) :: stack, .next)
  | .obj _ :: _ => none

def closeArr : List Frame → Option (List Frame × Expect)
  | .arr items :: stack => complete (.arr items.reverse) stack
  | _ => none

def closeObj : List Frame → Option (List Frame × Expect)
  | .obj fields :: stack => complete (.obj fields.reverse) stack
  | _ => none

/-- After a comma, an array goes on with a value and an object with a name. -/
def afterComma : List Frame → Option (List Frame × Expect)
  | .arr items :: stack => some (.arr items :: stack, .value)
  | .obj fields :: stack => some (.obj fields :: stack, .name)
  | _ => none

def beginField (name : Option String) : List Frame → Option (List Frame × Expect)
  | .obj fields :: stack => some (.field fields name :: stack, .colon)
  | _ => none

def beginValue (stack : List Frame) : Token → Option (List Frame × Expect)
  | .scalar value => complete value stack
  | .openArr => some (.arr [] :: stack, .firstItem)
  | .openObj => some (.obj [] :: stack, .firstName)
  | _ => none

/-- One token. -/
def readToken (stack : List Frame) : Expect → Token → Option (List Frame × Expect)
  | .value, t => beginValue stack t
  | .firstItem, .closeArr => closeArr stack
  | .firstItem, t => beginValue stack t
  | .firstName, .closeObj => closeObj stack
  | .firstName, .scalar (.str name) => beginField name stack
  | .name, .scalar (.str name) => beginField name stack
  | .colon, .colon => some (stack, .value)
  | .next, .comma => afterComma stack
  | .next, .closeArr => closeArr stack
  | .next, .closeObj => closeObj stack
  | _, _ => none

/-- All tokens. -/
def readTokens : List Token → List Frame × Expect → Option Json
  | [], (_, .finished document) => some document
  | [], _ => none
  | t :: rest, (stack, expect) => (readToken stack expect t).bind (readTokens rest)

/-- The document that a text holds. -/
def read? (s : String) : Option Json := do
  readTokens (← tokens s.toList) ([], .value)

end Json
end CountedHeap
