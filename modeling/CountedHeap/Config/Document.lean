/-
# Configuration documents

A configuration is written as a JSON object. A document may leave members out:
those of the configuration and of its pool then have their defaults, and those
of the limits are no limits. Members with other names are skipped, except in a
range, and a member must not be given twice. A record may also be written as the
array of its members in order; one without defaults then needs all of them.
-/
import CountedHeap.Config.Codec
import CountedHeap.Json.Printer
import CountedHeap.Json.Reader

namespace CountedHeap

/-- The record that has the given members. -/
def Members.read? {ρ : Type} (given : List (String × Json)) (default? : Option ρ) :
    {β : Type} → Members ρ β → β → Option ρ
  | _, .done, record => some record
  | _, .more name value codec rest, make => do
    let a ← codec.member? (given.lookup name) (default?.map value)
    rest.read? given default? (make a)

namespace Config
namespace Document

/-! ### Numbers, options and lists -/

/-- A number of 64 bits. -/
def nat? : Json → Option Nat
  | .int n => if 0 ≤ n ∧ n < 18446744073709551616 then some n.toNat else none
  | _ => none

def short? : Json → Option Int32
  | .int n => Word.ofInt? n
  | _ => none

def word : Codec Nat := { write := .nat, read? := nat? }

def short : Codec Int32 := { write := fun i => .int i.toInt, read? := short? }

def optional {α : Type} (c : Codec α) : Codec (Option α) where
  write a := a.elim .null c.write
  read?
    | .null => some none
    | j => (c.read? j).map some
  absent := some none

def list {α : Type} (c : Codec α) : Codec (List α) where
  write as := .arr (as.map c.write)
  read?
    | .arr items => items.mapM c.read?
    | _ => none

/-! ### Records -/

/-- The members of a record that a document gives, by their names. -/
def members? (names : List String) : Json → Option (List (String × Json))
  | .arr items => if items.length ≤ names.length then some (names.zip items) else none
  | .obj fields => do
    let fields ← fields.mapM fun (name, value) => name.map (·, value)
    let known := fields.filter (names.contains ·.1)
    if (known.map (·.1)).Nodup then some known else none
  | _ => none

/-- Whether a record written as an array has all members. -/
def isWhole (names : List String) : Json → Bool
  | .arr items => items.length = names.length
  | _ => true

/-- Whether a record has members of these names only. -/
def isClosed (names : List String) : Json → Bool
  | .obj fields => fields.all fun (name, _) => name.any names.contains
  | _ => true

def record {ρ : Type} (d : Declaration ρ) : Codec ρ where
  write r := .object (d.members.write r)
  read? j := do
    guard (d.default?.isSome || isWhole d.members.names j)
    let given ← members? d.members.names j
    d.members.read? given d.default? d.make

def rangeDeclaration : Declaration ShortRange where
  make := ShortRange.mk
  members := .more "start" (·.start) short <| .more "end" (·.stop) short .done
  distinct := by decide
  rebuild_eq _ := rfl

/-- A range has no other members than its bounds. -/
def range : Codec ShortRange where
  write := (record rangeDeclaration).write
  read? j := do
    guard (isClosed rangeDeclaration.members.names j)
    (record rangeDeclaration).read? j

/-- JSON without blanks. -/
def codecs : Codecs where
  print := Json.render
  parse := Json.read?
  word := word
  short := short
  optional := optional
  list := list
  range := range
  record := record

def limits? : Json → Option Limits := codecs.limits.read?

def optionalNat : Option Nat → Json := (codecs.optional codecs.word).write

end Document

/-- The configuration that a document describes. -/
def ofJson? : Json → Option Config := Document.codecs.config.read?

/-- The document of a configuration, with all its members. -/
def toJson : Config → Json := Document.codecs.config.write

def read? (text : String) : Option Config := Document.codecs.read? text

def text (c : Config) : String := Document.codecs.text c

end Config
end CountedHeap
