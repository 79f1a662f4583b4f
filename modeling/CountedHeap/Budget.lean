/-
# Resource limits

A tracker is asked before a fresh block is taken, told when one is given back,
and asked before one more level of recursion. The unmetered tracker counts
nothing and enforces the standard depth only; the metered one counts blocks and
bytes against its limits. Bytes are counted in words of 64 bits.
-/
import CountedHeap.Error
import CountedHeap.Word

namespace CountedHeap

/-- Limits; `none` is no limit. -/
structure Limits where
  maxAllocations : Option Nat := none
  maxMemory : Option Nat := none
  maxDepth : Option Nat := none
  deriving DecidableEq, Repr, Inhabited

namespace Limits

def standardDepth : Nat := 200

/-- Only the depth of recursion is limited. -/
def standard : Limits := { maxDepth := some standardDepth }

/-- No limit at all. -/
def unlimited : Limits := {}

end Limits

inductive Tracker where
  | unmetered
  | metered (limits : Limits) (allocations memory : Nat)
  deriving DecidableEq, Repr, Inhabited

namespace Tracker

/-- A tracker that has seen no block yet. -/
def fresh (limits : Limits) : Tracker := .metered limits 0 0

/-- The tracker for a heap's limits: the standard ones need no counting. -/
def ofLimits (limits : Limits) : Tracker :=
  if limits = Limits.standard then .unmetered else fresh limits

/-- The limit that one more block of `size` bytes is found to exceed. The number of
blocks is looked at first. Bytes are added up in a word, so the sum may be too small. -/
def refusal? (limits : Limits) (allocations memory size : Nat) : Option Exhaustion :=
  match limits.maxAllocations.filter (· ≤ allocations) with
  | some limit => some (.allocations limit (allocations + 1))
  | none =>
    (limits.maxMemory.filter (· < Word.wrapAdd memory size)).map (.memory · (Word.wrapAdd memory size))

/-- Charges a block of `size` bytes. -/
def allocate (size : Nat) : Tracker → Except Exhaustion Tracker
  | .unmetered => .ok .unmetered
  | .metered limits allocations memory =>
    match refusal? limits allocations memory size with
    | some e => .error e
    | none => .ok (.metered limits (allocations + 1) (Word.wrapAdd memory size))

/-- Takes a block of `size` bytes off the books. -/
def free (size : Nat) : Tracker → Tracker
  | .unmetered => .unmetered
  | .metered limits allocations memory => .metered limits (allocations - 1) (memory - size)

def maxDepth : Tracker → Option Nat
  | .unmetered => some Limits.standardDepth
  | .metered limits _ _ => limits.maxDepth

/-- Whether a level may be entered from `depth`. -/
def checkDepth (t : Tracker) (depth : Nat) : Except Exhaustion Unit :=
  match t.maxDepth.filter (· ≤ depth) with
  | some limit => .error (.recursion limit (depth + 1))
  | none => .ok ()

def allocationCount : Tracker → Option Nat
  | .unmetered => none
  | .metered _ allocations _ => some allocations

def memoryBytes : Tracker → Option Nat
  | .unmetered => none
  | .metered _ _ memory => some memory

/-- What a heap tells or asks its tracker. -/
inductive Call where
  | allocate (size : Nat)
  | free (size : Nat)
  | depth (n : Nat)
  deriving DecidableEq, Repr, Inhabited

/-- The tracker's answer to a call, and the tracker after it. -/
def answer (t : Tracker) : Call → Except Exhaustion Unit × Tracker
  | .allocate size =>
    match t.allocate size with
    | .ok t => (.ok (), t)
    | .error e => (.error e, t)
  | .free size => (.ok (), t.free size)
  | .depth n => (t.checkDepth n, t)

/-- The answers to calls made one after the other. -/
def answers : Tracker → List Call → List (Except Exhaustion Unit × Tracker)
  | _, [] => []
  | t, call :: rest => t.answer call :: answers (t.answer call).2 rest

end Tracker

end CountedHeap
