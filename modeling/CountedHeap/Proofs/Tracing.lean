/-
# Tracing changes nothing, and all sinks tell one history

A heap reports events and never looks at what its tracer made of them. So heaps that
differ in their sinks only stay so under all requests, and their sinks are told the
same events in the same order (`Heap.Retold`). What a sink shows is then a matter of
this history alone: each event by itself, in the sink's own words, and a console
that was not asked for hits leaves out the hits and nothing else.

Key definitions: `Tracer.after`, `Sink.entries`, `Heap.Retold`.
Key theorems: `linesOf_spec`, `Tracer.after_eq`, `Heap.retold_likeness`, `tracing_invisible`.
-/
import Mathlib.Data.List.Induction
import CountedHeap.Proofs.Failure
import CountedHeap.Proofs.Likeness
import CountedHeap.Proofs.Replay

namespace CountedHeap

variable {κ : Role → Type}

/-! ### The lines of an entry -/

theorem linesAfter_ne_nil : ∀ line text : List Char, linesAfter line text ≠ []
  | _, [] => List.cons_ne_nil _ _
  | line, c :: rest => by
    unfold linesAfter
    split
    · exact List.cons_ne_nil _ _
    · exact linesAfter_ne_nil (c :: line) rest

theorem intercalate_linesAfter : ∀ line text : List Char,
    "\n".intercalate (linesAfter line text) = String.ofList (line.reverse ++ text)
  | _, [] => by simp [linesAfter]
  | line, c :: rest => by
    unfold linesAfter
    split
    · rename_i hc
      subst hc
      rw [String.intercalate_cons_of_ne_nil (linesAfter_ne_nil _ _), intercalate_linesAfter]
      simp [String.append_assoc]
    · rw [intercalate_linesAfter]
      simp

/-- A text has a line, and its lines are the whole of it. -/
theorem linesOf_spec (text : String) : linesOf text ≠ [] ∧ "\n".intercalate (linesOf text) = text := by
  refine ⟨linesAfter_ne_nil _ _, (intercalate_linesAfter _ _).trans ?_⟩
  simp

/-! ### What a sink makes of a history -/

/-- The entries that a sink makes of some events. -/
def Sink.entries : Sink → List Event → List String
  | .silent, _ | .record, _ => []
  | .console true, events => events.map Event.consoleEntry
  | .console false, events => (events.filter fun e => !e.isHit).map Event.consoleEntry
  | .log, events => events.map Event.logEntry

namespace Tracer

/-- The tracer of a sink that was told some events. -/
def after (sink : Sink) (events : List Event) : Tracer := events.foldl observe { sink := sink }

theorem after_concat (sink : Sink) (events : List Event) (e : Event) :
    after sink (events ++ [e]) = (after sink events).observe e := List.foldl_concat ..

/-- **A sink shows each event by itself.** Only a record keeps the events. -/
theorem after_eq (sink : Sink) (events : List Event) :
    after sink events =
      { sink := sink
        events := if sink = .record then events.toArray else #[]
        entries := (sink.entries events).toArray } := by
  induction events using List.reverseRecOn with
  | nil => rcases sink with _ | _ | (_ | _) | _ <;> rfl
  | append_singleton events e ih =>
    rw [after_concat, ih]
    rcases sink with _ | _ | (_ | _) | _
    · rfl
    · simp [observe, Sink.entries]
    · by_cases hit : e.isHit <;> simp [observe, Sink.entries, hit]
    · simp [observe, Sink.entries]
    · simp [observe, Sink.entries]

theorem events_after_record (events : List Event) : (after .record events).events.toList = events := by
  rw [after_eq]
  rfl

/-- An entry of a console may be several lines. -/
theorem lines_after_console (hits : Bool) (events : List Event) :
    (after (.console hits) events).lines = ((Sink.console hits).entries events).flatMap linesOf := by
  rw [after_eq]
  rfl

theorem lines_after_log (events : List Event) : (after .log events).lines = events.map Event.logEntry := by
  rw [after_eq]
  rfl

end Tracer

/-! ### Heaps that differ in their sinks -/

namespace Heap

/-- Heaps that differ in their sinks only, both of which were told the same events. -/
def Retold (sink sink' : Sink) (h h' : Heap κ) : Prop :=
  ∃ events, h.tracer = .after sink events ∧ h' = { h with tracer := .after sink' events }

/-- **No request sees which sink a heap has.** -/
theorem retold_likeness (sink sink' : Sink) : Likeness (Retold (κ := κ) sink sink') where
  same := by
    rintro h _ ⟨events, -, rfl⟩
    exact ⟨h.ledger, _, rfl⟩
  write store types depth violations := by
    rintro ⟨events, he, rfl⟩
    exact ⟨events, he, rfl⟩
  emit e := by
    rintro ⟨events, he, rfl⟩
    refine ⟨events ++ [e], ?_, ?_⟩
    · rw [Tracer.after_concat, ← he]
      rfl
    · rw [Tracer.after_concat]
      rfl
  free size := by
    rintro ⟨events, he, rfl⟩
    exact ⟨events, he, rfl⟩
  charge {h _} size := by
    rintro ⟨events, he, rfl⟩
    show Matches _ (h.ledger.allocate size) (h.ledger.allocate size)
    cases h.ledger.allocate size with
    | error e => exact rfl
    | ok ledger => exact ⟨events, he, rfl⟩
  level := by
    rintro h _ ⟨events, -, rfl⟩
    rfl

theorem Retold.untraced {sink sink' : Sink} {h h' : Heap κ} (told : Retold sink sink' h h') :
    h'.untraced = h.untraced := by
  obtain ⟨events, -, rfl⟩ := told
  rfl

end Heap

/-- Another tracker is installed. -/
def Heap.NewTracker (replace : Heap κ → Heap κ) : Prop := ∃ t, replace = (withTracker · t)

/-- **Tracing changes nothing, and all sinks tell one history.** Two heaps that differ in their sinks only are given
the same requests, with whatever references, and the same trackers. At every moment they agree in all but what was
traced, and the next request has the same answer or fault. If one of them records, what the other shows is the
record, each event in an entry of its own; a console without hits leaves out just those. On a console an entry has
at least one line, and all its lines are shown. -/
theorem tracing_invisible (host : Host κ) (first : Heap κ) (sink sink' : Sink) {h h' : Heap κ}
    (both : Abreast host Heap.NewTracker (first.withSink sink) (first.withSink sink') h h') :
    h'.untraced = h.untraced ∧
    (∀ r, Matches (fun p p' => p'.1 = p.1 ∧ p'.2.untraced = p.2.untraced) (host.perform r h) (host.perform r h')) ∧
    (sink = .record →
      (sink' = .console true →
        h'.tracer.lines = h.tracer.events.toList.flatMap fun e => linesOf e.consoleEntry) ∧
      (sink' = .console false →
        h'.tracer.lines =
          (h.tracer.events.toList.filter fun e => !e.isHit).flatMap fun e => linesOf e.consoleEntry) ∧
      (sink' = .log → h'.tracer.lines = h.tracer.events.toList.map Event.logEntry) ∧
      (sink' = .silent → h'.tracer = {})) ∧
    ∀ e : Event, linesOf e.consoleEntry ≠ [] ∧ "\n".intercalate (linesOf e.consoleEntry) = e.consoleEntry := by
  have like := Heap.retold_likeness (κ := κ) sink sink'
  have told : Heap.Retold sink sink' h h' := by
    refine both.alike like ?_ ⟨[], rfl, rfl⟩
    rintro _ h h' ⟨t, rfl⟩ ⟨events, he, rfl⟩
    exact ⟨events, he, rfl⟩
  refine ⟨told.untraced, fun r => ?_, fun hr => ?_, fun e => linesOf_spec _⟩
  · exact (like.perform host host.frames r h h' told).mono fun p p' hp => ⟨hp.1, hp.2.untraced⟩
  · subst hr
    obtain ⟨events, he, rfl⟩ := told
    rw [he, Tracer.events_after_record]
    refine ⟨fun hs => ?_, fun hs => ?_, fun hs => ?_, fun hs => ?_⟩
    · subst hs
      exact (Tracer.lines_after_console true events).trans (List.flatMap_map ..)
    · subst hs
      exact (Tracer.lines_after_console false events).trans (List.flatMap_map ..)
    · subst hs
      exact Tracer.lines_after_log events
    · subst hs
      exact Tracer.after_eq .silent events

/-- A console without hits beside a record, where a forged reference is given back and `None` is
handed out last: the console shows all but the last event. -/
theorem tracing_invisible_quiet : ∃ h h' : Heap Stock.Name,
    Abreast (Stock.host 8) Heap.NewTracker ((Heap.ofConfig Stock.sampleConfig).withSink .record)
      ((Heap.ofConfig Stock.sampleConfig).withSink (.console false)) h h' ∧
    h.tracer.events.toList = Stock.recordedEvents ∧ h'.violations = 1 ∧ h'.untraced = h.untraced ∧
    h'.tracer.lines =
      ["  +++ ALLOC   #3 short     16 bytes", "  +++ ALLOC   #4 short     16 bytes",
        "  --- POOL    #3           16 bytes", "  +++ ALLOC   #5 tuple     32 bytes",
        "  !!! INVARIANT no object at #9", "  +++ REUSE   #3 short     16 bytes",
        "  --- FREE    #5           32 bytes", "  --- POOL    #4           16 bytes"] := by
  have hrun : (((Stock.host 8).performAll Stock.recordedRequests
      ((Heap.ofConfig Stock.sampleConfig).withSink .record)).toOption).map (·.tracer.events.toList) =
        some Stock.recordedEvents := by decide +kernel
  have hrun' : (((Stock.host 8).performAll Stock.recordedRequests
      ((Heap.ofConfig Stock.sampleConfig).withSink (.console false))).toOption).map Heap.violations = some 1 := by
    decide +kernel
  obtain ⟨h, hp, hevents⟩ := Reached.of_performAll _ hrun
  obtain ⟨h', hp', hviolations⟩ := Reached.of_performAll _ hrun'
  have both : Abreast (Stock.host 8) Heap.NewTracker _ _ h h' := .performAll .start hp hp'
  obtain ⟨same, -, shown, -⟩ := tracing_invisible (Stock.host 8) _ .record (.console false) both
  refine ⟨h, h', both, hevents, hviolations, same, ?_⟩
  rw [(shown rfl).2.1 rfl, hevents]
  decide +kernel

end CountedHeap
