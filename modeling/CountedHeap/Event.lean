/-
# Events and tracers

What a heap reports while it works, and the forms in which a tracer keeps it:
the events themselves, entries for a console, or entries for a log. Each form
shows an event by itself, so a tracer's output is the history of events,
formatted. Names are free text: a line feed in one breaks the line on a console,
while an entry of a log stays one line whatever is in it.
-/
import CountedHeap.Error

namespace CountedHeap

inductive Event where
  /-- A fresh block became an object. -/
  | allocate (r : Ref) (typeName : String) (size : Nat)
  /-- A parked block became an object. -/
  | reuse (r : Ref) (typeName : String) (size : Nat)
  /-- The block of a dead object was parked. -/
  | park (r : Ref) (size : Nat)
  /-- The block of a dead object was given back. -/
  | free (r : Ref) (size : Nat)
  /-- An interned object was handed out. -/
  | hit (r : Ref)
  /-- An operator went to the type of the operand at `position`. -/
  | dispatch (op typeName : String) (position : Nat)
  /-- An unchecked release was skipped. -/
  | violation (cause : Inconsistency)
  deriving DecidableEq, Repr, Inhabited

/-- `s` followed by blanks up to `width` characters. -/
def padRight (width : Nat) (s : String) : String :=
  s ++ String.ofList (List.replicate (width - s.length) ' ')

/-- The lines of a text; `line` is what precedes it on its first line, last
character first. Only line feeds break lines. -/
def linesAfter (line : List Char) : List Char → List String
  | [] => [String.ofList line.reverse]
  | c :: rest =>
    if c = '\n' then String.ofList line.reverse :: linesAfter [] rest else linesAfter (c :: line) rest

/-- The lines of a text. -/
def linesOf (text : String) : List String := linesAfter [] text.toList

namespace Event

/-- Type names are padded to nine characters and symbols to two; references are not padded. -/
def consoleEntry : Event → String
  | .allocate r name size =>
    "  +++ ALLOC   " ++ r.text ++ " " ++ padRight 9 name ++ " " ++ toString size ++ " bytes"
  | .reuse r name size =>
    "  +++ REUSE   " ++ r.text ++ " " ++ padRight 9 name ++ " " ++ toString size ++ " bytes"
  | .park r size => "  --- POOL    " ++ r.text ++ " " ++ padRight 9 "" ++ " " ++ toString size ++ " bytes"
  | .free r size => "  --- FREE    " ++ r.text ++ " " ++ padRight 9 "" ++ " " ++ toString size ++ " bytes"
  | .hit r => "  ... CACHE   " ++ r.text
  | .dispatch op name position =>
    "  ... CALL    " ++ padRight 2 op ++ " on " ++ name ++ " (operand " ++ toString position ++ ")"
  | .violation cause => "  !!! INVARIANT " ++ cause.message

/-- Blocks and hits are traced, dispatch is for debugging, a violation is an error. -/
def logEntry : Event → String
  | .allocate r name size =>
    "TRACE objrt::heap allocate " ++ r.text ++ " " ++ name ++ " (" ++ toString size ++ " bytes)"
  | .reuse r name size =>
    "TRACE objrt::heap reuse pooled " ++ r.text ++ " as " ++ name ++ " (" ++ toString size ++ " bytes)"
  | .park r size => "TRACE objrt::heap pool " ++ r.text ++ " (" ++ toString size ++ " bytes)"
  | .free r size => "TRACE objrt::heap free " ++ r.text ++ " (" ++ toString size ++ " bytes)"
  | .hit r => "TRACE objrt::heap cache hit " ++ r.text
  | .dispatch op name position =>
    "DEBUG objrt::heap dispatch " ++ op ++ " to " ++ name ++ " (operand " ++ toString position ++ ")"
  | .violation cause => "ERROR objrt::heap invariant violation: " ++ cause.message

def isHit : Event → Bool
  | .hit _ => true
  | _ => false

end Event

/-- Where a tracer puts events. -/
inductive Sink where
  | silent
  | record
  /-- Entries for a console; hits only if asked for. -/
  | console (hits : Bool)
  | log
  deriving DecidableEq, Repr, Inhabited

/-- A sink and what it has taken in so far. -/
structure Tracer where
  sink : Sink := .silent
  events : Array Event := #[]
  entries : Array String := #[]
  deriving DecidableEq, Repr, Inhabited

namespace Tracer

def observe (t : Tracer) (e : Event) : Tracer :=
  match t.sink with
  | .silent => t
  | .record => { t with events := t.events.push e }
  | .console hits => if e.isHit && !hits then t else { t with entries := t.entries.push e.consoleEntry }
  | .log => { t with entries := t.entries.push e.logEntry }

/-- The lines that a reader of the sink sees. -/
def lines (t : Tracer) : List String :=
  match t.sink with
  | .log => t.entries.toList
  | _ => t.entries.toList.flatMap linesOf

/-- The same sink with nothing in it. -/
def drained (t : Tracer) : Tracer := { sink := t.sink }

end Tracer

end CountedHeap
