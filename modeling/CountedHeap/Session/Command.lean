/-
# Commands of a session

A session drives several heaps by commands. References, type ids and snapshots
have names that all heaps share; a reference made on one heap can be handed to
another, where its index names whatever slot that heap has there.
-/
import CountedHeap.Config
import CountedHeap.Dispatch
import CountedHeap.Snapshot

namespace CountedHeap
namespace Session

/-- How a command is given a reference that it consumes. -/
inductive Operand where
  /-- The named reference itself; the name is unbound afterwards. -/
  | move (name : String)
  /-- A new reference to the object of the named one. -/
  | share (name : String)
  | none
  | bool (value : Bool)
  | short (value : Int32)
  | tuple (items : List Operand)
  deriving Repr, Inhabited

/-- What a command does. Fields of type `String` are names, and references named
in this way stay bound. -/
inductive Command (κ : Role → Type) where
  | short (value : Int32)
  | none
  | bool (value : Bool)
  | tuple (items : List Operand)
  | allocate (type : String) (payload : Int64)
  | acquire (a : String)
  | item (a : String) (index : Int)
  | unary (op : UnaryOp) (a : Operand)
  | binary (op : BinaryOp) (a b : Operand)
  | power (a b c : Operand)
  | fib (a : Operand)
  /-- Calls the handler that stands in a place of a type, without dispatch. -/
  | callSlot (type : String) (place : Capability) (args : List Operand)
  /-- A short made while references are guarded; they are given back after it. -/
  | shortGuarding (value : Int32) (items : List Operand)
  | register (label : String) (type : Descriptor κ)
  | findType (name : String)
  | describe (type : String)
  | release (a : Operand)
  | tryRelease (a : Operand)
  /-- Forgets a reference without giving it back. -/
  | leak (a : Operand)
  | releaseAll (items : List Operand)
  | releaseReversed (items : List Operand)
  /-- Gives references back and tells how many there were. -/
  | releaseCounting (items : List Operand)
  | compare (op : CompareOp) (a b : Operand)
  | compareHeld (op : CompareOp) (a b : String)
  | isTrue (a : String)
  | length (a : String)
  | valueOf (a : String)
  | same (a b : String)
  | inspect (a : String)
  | peek (r : Ref)
  | stats
  | blocks
  | parkedOf (size : Nat)
  | range
  | snapshot (name : String)
  /-- The difference of two snapshots; the second may be the present. -/
  | diff (before : String) (after : Option String)
  | enter
  | leave
  | setTracker (tracker : Tracker)
  | setSink (sink : Sink)

/-- One step: a command on one of the heaps, with a name for the reference it
makes, or a repetition of steps. -/
inductive Step (κ : Role → Type) where
  | command (heap : Nat) (target : Option String) (command : Command κ)
  | loop (heap : Nat) (count : Nat) (body : List (Step κ))

/-- What a reference names at the moment it is shown. -/
structure View where
  ref : Ref
  typeName : String
  object : Object

/-- A result that is not a reference. -/
inductive Value (κ : Role → Type) where
  | null
  | nat (n : Nat)
  | int (n : Int)
  | bool (b : Bool)
  | type? (t : Option TypeId)
  | descriptor (d : Descriptor κ)
  | inspected (view : View)
  | peeked (r : Ref) (view : Option View)
  | stats (s : Snapshot)
  | blocks (c : BlockCounts)
  | range (r : ShortRange)
  | diff (d : Diff)

/-- Why a command gives no result. -/
inductive Refusal where
  | unbound (name : String)
  | emptySlot (place : Capability)
  | noHeap (index : Nat)
  | failed (e : RunError)
  deriving Repr, Inhabited

/-- The counts shown after each step. -/
structure Summary where
  liveObjects : Nat
  parkedBlocks : Nat
  vacantSlots : Nat
  totalSlots : Nat
  violations : Nat
  depth : Nat
  deriving DecidableEq, Repr, Inhabited

mutual

/-- The answer to a step: its reply and, if it was watched and no fault ended it,
what the heap's tracer took in and the counts after it. -/
inductive Answer (κ : Role → Type) where
  | mk (reply : Reply κ) (after : Option (Tracer × Summary))

inductive Reply (κ : Role → Type) where
  | made (view : View)
  | value (v : Value κ)
  | refused (cause : Refusal)
  | leaked (r : Ref)
  | fault (f : Fault)
  /-- The answers of the last round, and the number of errors in all rounds. -/
  | looped (last : List (Answer κ)) (errors : Nat)

end

/-- The text of a reference that was forgotten while it was still owned. -/
def leakMessage (r : Ref) : String :=
  "ObjRef(" ++ r.text ++ ") dropped without calling release_ref() - this is a reference counting bug"

def Reply.isError {κ : Role → Type} : Reply κ → Bool
  | .refused _ | .leaked _ | .fault _ => true
  | _ => false

def Answer.isError {κ : Role → Type} : Answer κ → Bool
  | .mk reply _ => reply.isError

/-- What a heap of a session is built from. -/
structure HeapSpec where
  config : Config := {}
  tracker : Option Tracker := none
  sink : Sink := .record
  deriving Repr, Inhabited

end Session
end CountedHeap
