/-
# Sessions

Runs steps one after the other. A fault ends the session.
-/
import CountedHeap.Session.Execute

namespace CountedHeap

/-- The heaps of a session and its names. -/
structure Session (κ : Role → Type) where
  heaps : List (Heap κ)
  names : Session.Names := {}

namespace Session

variable {κ : Role → Type}

def summary (h : Heap κ) : Summary where
  liveObjects := h.store.liveCount
  parkedBlocks := h.store.parkedCount
  vacantSlots := h.store.vacant.length
  totalSlots := h.store.slots.size
  violations := h.violations
  depth := h.depth

/-- A heap of a list, with those before and after it. -/
def focus : Nat → List (Heap κ) → Option (List (Heap κ) × Heap κ × List (Heap κ))
  | _, [] => none
  | 0, h :: rest => some ([], h, rest)
  | i + 1, h :: rest => (focus i rest).map fun (before, g, after) => (h :: before, g, after)

/-- Runs a command on one of the heaps. What the tracer took in and the counts are
part of the answer only if the command is watched. Without a session the run has
ended. -/
def runCommand (host : Host κ) (watched : Bool) (heap : Nat) (target : Option String) (command : Command κ) :
    Session κ → Answer κ × Option (Session κ)
  | ⟨heaps, names⟩ =>
    match focus heap heaps with
    | none => (.mk (.refused (.noHeap heap)) none, some ⟨heaps, names⟩)
    | some (before, h, after) =>
      match (do settle target (← execute host command) : DeskM κ (Reply κ)).run ⟨h, names⟩ with
      | .error f => (.mk (.fault f) none, none)
      | .ok (result, ⟨h, names⟩) =>
        let reply := match result with
          | .ok reply => reply
          | .error cause => .refused cause
        let seen := if watched then some (h.tracer, summary h) else none
        let h := { h with tracer := h.tracer.drained }
        (.mk reply seen, some ⟨before ++ h :: after, names⟩)

/-- Runs `body` several times and keeps the answers of the last round and the
number of errors. The last round is watched and no other, whether or not the loop
itself is. -/
def rounds (body : Bool → Session κ → List (Answer κ) × Option (Session κ)) :
    Nat → List (Answer κ) → Nat → Session κ → List (Answer κ) × Nat × Option (Session κ)
  | 0, last, errors, s => (last, errors, some s)
  | n + 1, _, errors, s =>
    match body (n == 0) s with
    | (answers, none) => (answers, errors + answers.countP Answer.isError, none)
    | (answers, some s) => rounds body n answers (errors + answers.countP Answer.isError) s

/-- The counts of a heap after a loop, which traces nothing itself. -/
def afterLoop (watched : Bool) (heap : Nat) (s : Session κ) : Option (Tracer × Summary) :=
  if watched then s.heaps[heap]?.map fun h => ({}, summary h) else none

mutual

def runStep (host : Host κ) (watched : Bool) : Step κ → Session κ → Answer κ × Option (Session κ)
  | .command heap target command, s => runCommand host watched heap target command s
  | .loop heap count body, s =>
    match rounds (fun watched => runSteps host watched body) count [] 0 s with
    | (last, errors, some s) => (.mk (.looped last errors) (afterLoop watched heap s), some s)
    | (last, errors, none) => (.mk (.looped last errors) none, none)

/-- Runs steps until they are done or a fault ends the session. -/
def runSteps (host : Host κ) (watched : Bool) :
    List (Step κ) → Session κ → List (Answer κ) × Option (Session κ)
  | [], s => ([], some s)
  | step :: rest, s =>
    match runStep host watched step s with
    | (answer, none) => ([answer], none)
    | (answer, some s) =>
      match runSteps host watched rest s with
      | (answers, s) => (answer :: answers, s)

end

/-- Runs a script: the answers to its steps, and the session unless a fault ended it. -/
def run (host : Host κ) (script : List (Step κ)) (s : Session κ) : List (Answer κ) × Option (Session κ) :=
  runSteps host true script s

/-- Builds a heap. The tracker and the tracer are installed afterwards. -/
def HeapSpec.build (spec : HeapSpec) : Heap κ :=
  let h := Heap.ofConfig spec.config
  let h := match spec.tracker with
    | some t => h.withTracker t
    | none => h
  h.withSink spec.sink

/-- A session on new heaps, in which the built-in types have names. -/
def start (specs : List HeapSpec) : Session κ where
  heaps := specs.map HeapSpec.build
  names.types := .ofList [("NONE", TypeId.none), ("BOOL", TypeId.bool), ("SHORT", TypeId.short), ("TUPLE", TypeId.tuple)]

/-- The log of building heaps. -/
def buildLog (specs : List HeapSpec) : List String := specs.flatMap (·.config.warnings)

end Session

end CountedHeap
