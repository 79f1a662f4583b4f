/-
# The log of events determines the heap

A recording tracer is told of every block that becomes an object, is parked or is
given back. `Replay` is what a reader of the log can know: which objects are live,
with the name of their type and their size; a stack of parked blocks for each size;
a stack of vacant slots; and the first index that was never used. It accepts an
event only where the event makes sense: a fresh block only if none of its size is
parked, and then in the slot vacated last or else in the next new one; a reused
block only if it is the one parked last; the death of an object only if it is live,
has that size and can die; a hit only of an immortal object.

Every single step of a heap emits at most one event, which the reader accepts, and
what the reader knows after it is how the heap is after it (`Change.logged`). So the
log of a whole run can be read to its end, and the heap is what it tells.

Key definitions: `Replay`, `Replay.step`, `Replay.Shows`, `Recorded`.
Key theorems: `Change.logged`, `log_determines_heap`.
-/
import CountedHeap.Proofs.Balance
import CountedHeap.Proofs.Evolution

namespace CountedHeap

variable {κ : Role → Type}

/-! ### Reading a log -/

/-- What is told of a live object. -/
structure Tenant where
  typeName : String
  size : Nat
  immortal : Bool
  deriving DecidableEq, Repr

/-- What a log of events tells of a heap. -/
structure Replay where
  live : Ref → Option Tenant
  /-- The parked blocks of each size, the last one first. -/
  parked : Nat → List Ref
  /-- The vacant slots, the last one first. -/
  vacant : List Ref
  /-- The first index that was never used. -/
  next : Nat

namespace Replay

variable (m : Replay)

def enter (r : Ref) (typeName : String) (size : Nat) : Replay :=
  { m with live := Function.update m.live r (some ⟨typeName, size, false⟩) }

def leave (r : Ref) : Replay := { m with live := Function.update m.live r none }

/-- Whether an object of that size is live there that can die. -/
def mortal (r : Ref) (size : Nat) : Bool := (m.live r).any fun t => t.size = size && !t.immortal

/-- Reads one event, if it makes sense. -/
def step : Event → Option Replay
  | .allocate r name size =>
    match m.parked size, m.vacant with
    | [], top :: rest => if r = top then some { m.enter r name size with vacant := rest } else none
    | [], [] => if r = ⟨m.next⟩ then some { m.enter r name size with next := m.next + 1 } else none
    | _ :: _, _ => none
  | .reuse r name size =>
    match m.parked size with
    | top :: rest =>
      if r = top then some { m.enter r name size with parked := Function.update m.parked size rest } else none
    | [] => none
  | .park r size =>
    if m.mortal r size then
      some { m.leave r with parked := Function.update m.parked size (r :: m.parked size) }
    else none
  | .free r size => if m.mortal r size then some { m.leave r with vacant := r :: m.vacant } else none
  | .hit r => if (m.live r).any (·.immortal) then some m else none
  | .dispatch _ _ _ | .violation _ => some m

theorem step_reuse {size : Nat} {r : Ref} {rest : List Ref} (top : m.parked size = r :: rest) (name : String) :
    m.step (.reuse r name size) =
      some { m.enter r name size with parked := Function.update m.parked size rest } := by
  simp only [step, top, if_true]

theorem step_allocate_vacant {size : Nat} {r : Ref} {rest : List Ref} (none : m.parked size = [])
    (top : m.vacant = r :: rest) (name : String) :
    m.step (.allocate r name size) = some { m.enter r name size with vacant := rest } := by
  simp only [step, none, top, if_true]

theorem step_allocate_next {size : Nat} (none : m.parked size = []) (empty : m.vacant = []) (name : String) :
    m.step (.allocate ⟨m.next⟩ name size) = some { m.enter ⟨m.next⟩ name size with next := m.next + 1 } := by
  simp only [step, none, empty, if_true]

/-- Reads a log from its beginning. -/
def run (events : List Event) : Option Replay := events.foldlM step m

theorem run_append (first last : List Event) : m.run (first ++ last) = (m.run first).bind (·.run last) :=
  List.foldlM_append

theorem run_single (e : Event) : m.run [e] = m.step e := by
  unfold run
  rw [List.foldlM_cons]
  exact Option.bind_fun_some _

end Replay

/-! ### What the heap has to show -/

/-- What is told of an object. -/
def Object.tenant (types : Registry κ) (o : Object) : Tenant := ⟨types.nameOf o.type, o.size, o.immortal⟩

/-- What is told of the live object a reference names. -/
def Heap.tenant? (h : Heap κ) (r : Ref) : Option Tenant := (h.object? r).map (Object.tenant h.types)

/-- The heap is as the log tells. -/
structure Replay.Shows (m : Replay) (h : Heap κ) : Prop where
  live : ∀ r, m.live r = h.tenant? r
  formed : h.store.Formed m.parked
  others : ∀ size, size ∉ h.store.classes.map SizeClass.size → m.parked size = []
  vacant : m.vacant = h.store.vacant
  next : m.next = h.store.slots.size

namespace Heap

variable {h g : Heap κ} {r : Ref} {new : Slot}

theorem tenant?_other (w : h.store.Writes g.store r new) (ht : g.types = h.types) {a : Ref} (ha : a ≠ r) :
    g.tenant? a = h.tenant? a := by
  unfold tenant? object?
  rw [w.object?_other ha, ht]

theorem tenant?_self (w : h.store.Writes g.store r new) : g.tenant? r = new.object?.map (Object.tenant g.types) := by
  unfold tenant? object?
  rw [w.object?_self]

/-- A registered type keeps its name. -/
theorem tenant?_register (wf : h.WellFormed) {d : Descriptor κ} {type : TypeId} {types : Registry κ}
    (added : h.types.register d = .ok (type, types)) (r : Ref) : { h with types := types }.tenant? r = h.tenant? r := by
  show (h.object? r).map (Object.tenant types) = (h.object? r).map (Object.tenant h.types)
  cases live : h.object? r with
  | none => rfl
  | some o =>
    obtain ⟨d', found, -⟩ := (wf.objects r o live).sized
    have hname : types.nameOf o.type = h.types.nameOf o.type := by
      unfold Registry.nameOf
      rw [found, Registry.get?_register added found]
    simp only [Option.map_some, Object.tenant, hname]

end Heap

theorem Store.size_put (s : Store) (r : Ref) (slot : Slot) : (s.put r slot).slots.size = s.slots.size :=
  Array.size_setIfInBounds

namespace Replay.Shows

variable {m : Replay} {h g : Heap κ} {r : Ref} {o : Object}

/-- Only slots, lists and the names of types matter. -/
theorem of_eq (shows : m.Shows h) (store : g.store = h.store) (types : g.types = h.types) : m.Shows g := by
  refine ⟨fun a => ?_, store ▸ shows.formed, store ▸ shows.others, store ▸ shows.vacant, store ▸ shows.next⟩
  unfold Heap.tenant? Heap.object?
  rw [store, types]
  exact shows.live a

/-- A count is not told. -/
theorem recount (shows : m.Shows h) (live : h.object? r = some o) (n : Nat) :
    m.Shows (h.setSlot r (.live { o with refcount := n })) := by
  have hs := Heap.slot_of_object? live
  have w : h.store.Writes (h.setSlot r (.live { o with refcount := n })).store r _ := Store.writes_put hs _
  refine ⟨fun a => ?_, shows.formed.rewrite hs w rfl rfl rfl, shows.others, shows.vacant,
    shows.next.trans (h.store.size_put _ _).symm⟩
  rw [shows.live]
  by_cases ha : a = r
  · rw [ha, Heap.tenant?_self w]
    unfold Heap.tenant?
    rw [live]
    rfl
  · rw [Heap.tenant?_other w rfl ha]

/-- An object that leaves is live no more. -/
theorem live_leave (shows : m.Shows h) {free : Slot} (hfree : free.object? = none)
    (w : h.store.Writes g.store r free) (ht : g.types = h.types) (a : Ref) : (m.leave r).live a = g.tenant? a := by
  unfold leave
  by_cases ha : a = r
  · rw [ha, Heap.tenant?_self w, hfree]
    exact Function.update_self ..
  · rw [Heap.tenant?_other w ht ha, ← shows.live]
    exact Function.update_of_ne ha ..

/-- A new object is live with the name of its type and its size. -/
theorem live_enter (shows : m.Shows h) {type : TypeId} {d : Descriptor κ} {payload : Payload}
    (found : h.types.get? type = some d) (w : h.store.Writes g.store r (.live (.fresh type d payload)))
    (ht : g.types = h.types) (a : Ref) :
    (m.enter r d.name (d.blockSize payload.children.length)).live a = g.tenant? a := by
  unfold enter
  by_cases ha : a = r
  · have hname : h.types.nameOf type = d.name := by
      unfold Registry.nameOf
      rw [found]
      rfl
    rw [ha, Heap.tenant?_self w, ht]
    simp only [Slot.object?, Option.map_some, Object.tenant, Object.fresh, hname]
    exact Function.update_self ..
  · rw [Heap.tenant?_other w ht ha, ← shows.live]
    exact Function.update_of_ne ha ..

/-- An object that dies can do so for the reader too. -/
theorem mortal_of_dies (shows : m.Shows h) (wf : h.WellFormed) (dies : h.verdict r = .dies o) :
    m.mortal r o.size = true := by
  obtain ⟨live, -, mortal⟩ := wf.dies dies
  unfold Replay.mortal
  rw [shows.live]
  unfold Heap.tenant?
  rw [live]
  simp [Object.tenant, mortal]

/-- A size without a class has an empty stack. -/
theorem stack_of_none (shows : m.Shows h) {size : Nat} (hc : h.store.sizeClass? size = none) :
    m.parked size = [] := by
  refine shows.others size fun hin => ?_
  obtain ⟨c, hmem, rfl⟩ := List.mem_map.mp hin
  have := List.find?_eq_none.mp hc c hmem
  simp at this

/-- A class that has no block to give has an empty stack. -/
theorem stack_empty (shows : m.Shows h) {size : Nat} (none : h.store.takeParked size = .ok none) :
    m.parked size = [] := by
  cases hc : h.store.sizeClass? size with
  | none => exact shows.stack_of_none hc
  | some c =>
    obtain ⟨hmem, rfl⟩ := Store.sizeClass?_mem hc
    have hl := shows.formed.linked c hmem
    cases hhead : c.head with
    | none =>
      rw [hhead] at hl
      cases hstack : m.parked c.size with
      | nil => rfl
      | cons r rest =>
        rw [hstack] at hl
        cases hl.1
    | some r =>
      -- the class has a block to give
      obtain ⟨size, head, length⟩ := c
      cases hhead
      obtain ⟨next, rest, -, hs, -⟩ := hl.head_eq
      unfold Store.takeParked at none
      rw [hc] at none
      simp only [hs] at none
      cases none

/-- The stack of a class that is there is no other one. -/
theorem update_others (shows : m.Shows h) {c new : SizeClass} {size : Nat} (hc : c ∈ h.store.classes ∧ c.size = size)
    {other : Nat} (hother : other ∉ (SizeClass.update h.store.classes new).map SizeClass.size) (blocks : List Ref) :
    Function.update m.parked size blocks other = [] := by
  rw [SizeClass.map_size_update] at hother
  have hne : other ≠ size := by
    rintro rfl
    exact hother (List.mem_map.mpr ⟨c, hc⟩)
  rw [Function.update_of_ne hne]
  exact shows.others other hother

/-- The block of a dead object goes on the stack of its size, or its slot on the stack of vacant ones. -/
theorem bury (shows : m.Shows h) (wf : h.WellFormed) (dies : h.verdict r = .dies o) :
    ∃ e m', m.step e = some m' ∧ m'.Shows (h.bury r o) ∧ (h.bury r o).tracer = h.tracer.observe e ∧
      (h.bury r o).violations = h.violations ∧
      (e = .park r o.size ∧ (h.bury r o).ledger = h.ledger ∨
        e = .free r o.size ∧ (h.bury r o).ledger = h.ledger.free o.size) := by
  obtain ⟨live, -, -⟩ := wf.dies dies
  have hs := Heap.slot_of_object? live
  have hm := shows.mortal_of_dies wf dies
  obtain ⟨⟨free, hfree, w⟩, -, ht, -⟩ := Change.bury_writes wf live
  have hlive := shows.live_leave hfree w ht
  rcases Heap.bury_cases h r o with ⟨c, -, room, he⟩ | he <;> rw [he] at hlive ⊢
  · refine ⟨.park r o.size, { m.leave r with parked := Function.update m.parked o.size (r :: m.parked o.size) },
      if_pos hm, ⟨hlive, shows.formed.park hs room, fun size hsize => ?_, shows.vacant, ?_⟩, rfl, rfl, Or.inl ⟨rfl, rfl⟩⟩
    · obtain ⟨hc, -⟩ := Option.filter_eq_some_iff.mp room
      exact shows.update_others (Store.sizeClass?_mem hc) hsize _
    · exact shows.next.trans (h.store.size_put _ _).symm
  · refine ⟨.free r o.size, { m.leave r with vacant := r :: m.vacant }, if_pos hm,
      ⟨hlive, shows.formed.vacate hs, shows.others, ?_, ?_⟩, rfl, rfl, Or.inr ⟨rfl, rfl⟩⟩
    · exact congrArg (r :: ·) shows.vacant
    · exact shows.next.trans (h.store.size_put _ _).symm

/-- The block that a class gives is the one parked last. -/
theorem stack_head (shows : m.Shows h) {c : SizeClass} (hc : c ∈ h.store.classes) (head : c.head = some r) :
    ∃ rest, m.parked c.size = r :: rest := by
  have hl := shows.formed.linked c hc
  rw [head] at hl
  obtain ⟨-, rest, hstack, -⟩ := hl.head_eq
  exact ⟨rest, hstack⟩

/-- The slot for a fresh block is the one that the reader expects. -/
theorem step_allocate (shows : m.Shows h) (name : String) {size : Nat} (none : m.parked size = []) :
    ∃ m', m.step (.allocate h.store.freshRef name size) = some m' ∧
      m'.live = (m.enter h.store.freshRef name size).live ∧ m'.parked = m.parked ∧
      m'.vacant = h.store.takeFresh.vacant ∧ m'.next = h.store.takeFresh.slots.size := by
  have hvacant := shows.vacant
  unfold Store.freshRef Store.takeFresh
  cases hv : h.store.vacant with
  | nil =>
    rw [hv] at hvacant
    rw [List.headD_nil, ← shows.next]
    refine ⟨_, m.step_allocate_next none hvacant name, rfl, rfl, hvacant, ?_⟩
    rw [Array.size_push, ← shows.next]
  | cons top rest =>
    rw [hv] at hvacant
    exact ⟨_, m.step_allocate_vacant none hvacant name, rfl, rfl, rfl, shows.next⟩

/-- A new object is in a block that was parked last, or in the slot for a fresh one. -/
theorem make (shows : m.Shows h) (wf : h.WellFormed) {type : TypeId} {d : Descriptor κ} {payload : Payload}
    (found : h.types.get? type = some d) {size : Nat} (hsize : size = d.blockSize payload.children.length)
    (taken : h.takeBlock d.name size = .ok (.ok r, g)) :
    ∃ e m', m.step e = some m' ∧ m'.Shows (g.setSlot r (.live (.fresh type d payload))) ∧
      g.tracer = h.tracer.observe e ∧ g.violations = h.violations ∧
      (e = .reuse r d.name size ∧ g.ledger = h.ledger ∨
        e = .allocate r d.name size ∧ g.ledger.counts = h.ledger.counts.allocate size) := by
  obtain ⟨-, w, -, ht, -⟩ := Change.make_writes wf (.fresh type d payload) taken
  have hlive := shows.live_enter (g := g.setSlot r (.live (.fresh type d payload))) found w ht
  rw [← hsize] at hlive
  have hnext := g.store.size_put r (.live (.fresh type d payload))
  rcases Heap.takeBlock_cases taken with ⟨c, next, n, hc, head, parked, rfl⟩ | ⟨ledger, none, charged, rfl, rfl⟩
  · obtain ⟨hmem, rfl⟩ := Store.sizeClass?_mem hc
    obtain ⟨rest, hstack⟩ := shows.stack_head hmem head
    have hf := shows.formed.reuse (o := .fresh type d payload) hc head parked
    rw [hstack, List.tail_cons] at hf
    exact ⟨.reuse r d.name c.size, _, m.step_reuse hstack d.name,
      ⟨hlive, hf, fun size h => shows.update_others ⟨hmem, rfl⟩ h _, shows.vacant, shows.next.trans hnext.symm⟩,
      rfl, rfl, Or.inl ⟨rfl, rfl⟩⟩
  · obtain ⟨m', hstep, live', parked', vacant', next'⟩ := shows.step_allocate d.name (shows.stack_empty none)
    refine ⟨.allocate h.store.freshRef d.name size, m', hstep,
      ⟨fun a => ?_, ?_, fun other hother => ?_, vacant', next'.trans hnext.symm⟩, rfl, rfl, Or.inr ⟨rfl, ?_⟩⟩
    · rw [live']
      exact hlive a
    · rw [parked']
      exact shows.formed.fill
    · rw [parked']
      exact shows.others other (h.store.takeFresh_classes ▸ hother)
    · exact (Ledger.allocate_ok charged).1

end Replay.Shows

/-! ### Every step is told -/

namespace Event

def isAllocation : Event → Bool
  | .allocate _ _ _ => true
  | _ => false

def isFree : Event → Bool
  | .free _ _ => true
  | _ => false

def isViolation : Event → Bool
  | .violation _ => true
  | _ => false

end Event

/-- The tracer is told `events` on the way from `h` to `g`, and the totals grow by what it is told. -/
structure Logged (h g : Heap κ) (events : List Event) : Prop where
  tracer : g.tracer = events.foldl Tracer.observe h.tracer
  allocations : g.ledger.counts.totalAllocations =
    h.ledger.counts.totalAllocations + events.countP Event.isAllocation
  frees : g.ledger.counts.totalFrees = h.ledger.counts.totalFrees + events.countP Event.isFree
  violations : g.violations = h.violations + events.countP Event.isViolation

/-- **A step emits at most one event, which tells what it does.** -/
theorem Change.logged {m : Replay} {h g : Heap κ} {a : Act} (c : Change h a g) (ha : a ≠ .configure)
    (wf : h.WellFormed) (shows : m.Shows h) :
    ∃ events m', Logged h g events ∧ m.run events = some m' ∧ m'.Shows g := by
  cases c with
  | acquire live => exact ⟨[], m, ⟨rfl, rfl, rfl, rfl⟩, rfl, shows.recount live _⟩
  | drop kept => exact ⟨[], m, ⟨rfl, rfl, rfl, rfl⟩, rfl, shows.recount (Heap.verdict_kept kept).1 _⟩
  | register added =>
    refine ⟨[], m, ⟨rfl, rfl, rfl, rfl⟩, rfl, ⟨fun r => ?_, shows.formed, shows.others, shows.vacant, shows.next⟩⟩
    exact (shows.live r).trans (Heap.tenant?_register wf added r).symm
  | setDepth n => exact ⟨[], m, ⟨rfl, rfl, rfl, rfl⟩, rfl, shows.of_eq rfl rfl⟩
  | @bury r o dies =>
    obtain ⟨e, m', hstep, shows', tracer, violations, he⟩ := shows.bury wf dies
    refine ⟨[e], m', ?_, (m.run_single e).trans hstep, shows'⟩
    rcases he with ⟨rfl, ledger⟩ | ⟨rfl, ledger⟩
    · exact ⟨tracer, by rw [ledger]; rfl, by rw [ledger]; rfl, violations⟩
    · exact ⟨tracer, by rw [ledger]; rfl, by rw [ledger]; rfl, violations⟩
  | @make g r type d payload found fits taken =>
    obtain ⟨e, m', hstep, shows', tracer, violations, he⟩ := shows.make wf found rfl taken
    refine ⟨[e], m', ?_, (m.run_single e).trans hstep, shows'⟩
    rcases he with ⟨rfl, ledger⟩ | ⟨rfl, counts⟩
    · exact ⟨tracer, congrArg (·.counts.totalAllocations) ledger, congrArg (·.counts.totalFrees) ledger, violations⟩
    · exact ⟨tracer, congrArg (·.totalAllocations) counts, congrArg (·.totalFrees) counts, violations⟩
  | @hit r interned =>
    refine ⟨[.hit r], m, ⟨rfl, rfl, rfl, rfl⟩, (m.run_single _).trans (if_pos ?_), shows.of_eq rfl rfl⟩
    obtain ⟨o, n, h₀, live⟩ := wf.interned r interned
    obtain ⟨o', ho', original⟩ := Interned.slots_original _ h₀
    cases ho'
    rw [shows.live]
    unfold Heap.tenant?
    rw [live]
    exact original.immortal
  | dispatch op name position =>
    exact ⟨[.dispatch op name position], m, ⟨rfl, rfl, rfl, rfl⟩, m.run_single _, shows.of_eq rfl rfl⟩
  | skip cause => exact ⟨[.violation cause], m, ⟨rfl, rfl, rfl, rfl⟩, m.run_single _, shows.of_eq rfl rfl⟩
  | withTracker | withSink => exact absurd rfl ha

/-! ### Recorded runs -/

/-- A sink that records takes in everything, in order. -/
theorem Tracer.observe_record : ∀ (events : List Event) {t : Tracer}, t.sink = .record →
    (events.foldl Tracer.observe t).sink = .record ∧
      (events.foldl Tracer.observe t).events.toList = t.events.toList ++ events
  | [], t, hr => ⟨hr, (List.append_nil _).symm⟩
  | e :: events, t, hr => by
    have ho : t.observe e = { t with events := t.events.push e } := by
      unfold observe
      rw [hr]
    have ih := observe_record events (t := { t with events := t.events.push e }) hr
    rw [List.foldl_cons, ho]
    simpa using ih

/-- What is known of a heap before the first event. -/
def Replay.initial (h : Heap κ) : Replay :=
  { live := h.tenant?, parked := fun _ => [], vacant := [], next := h.store.slots.size }

/-- What has been recorded can be read to its end, and the heap is as it tells. -/
structure Heap.Told (first : Replay) (h : Heap κ) : Prop where
  wellFormed : h.WellFormed
  sink : h.tracer.sink = .record
  reads : ∃ m, first.run h.tracer.events.toList = some m ∧ m.Shows h
  allocations : h.ledger.counts.totalAllocations = h.tracer.events.toList.countP Event.isAllocation
  frees : h.ledger.counts.totalFrees = h.tracer.events.toList.countP Event.isFree
  violations : h.violations = h.tracer.events.toList.countP Event.isViolation

namespace Heap.Told

variable {first : Replay} {h g : Heap κ}

theorem start (c : Config) : Told (.initial (Heap.ofConfig c : Heap κ)) ((Heap.ofConfig c : Heap κ).withSink .record) := by
  have shows : (Replay.initial (Heap.ofConfig c : Heap κ)).Shows (Heap.ofConfig c : Heap κ) :=
    ⟨fun _ => rfl, WellFormed.formed_ofConfig c, fun _ _ => rfl, rfl, rfl⟩
  exact ⟨(WellFormed.ofConfig c).of_eq rfl rfl rfl, rfl, ⟨_, rfl, shows.of_eq rfl rfl⟩, rfl, rfl, rfl⟩

theorem step (told : Told first h) {a : Act} (c : Change h a g) (ha : a ≠ .configure) : Told first g := by
  obtain ⟨m, hread, shows⟩ := told.reads
  obtain ⟨events, m', logged, hrun, shows'⟩ := c.logged ha told.wellFormed shows
  obtain ⟨hsink, hevents⟩ := Tracer.observe_record events told.sink
  rw [← logged.tracer] at hsink hevents
  refine ⟨c.wellFormed told.wellFormed, hsink, ⟨m', ?_, shows'⟩, ?_, ?_, ?_⟩ <;> rw [hevents]
  · rw [Replay.run_append, hread]
    exact hrun
  · rw [List.countP_append, logged.allocations, told.allocations]
  · rw [List.countP_append, logged.frees, told.frees]
  · rw [List.countP_append, logged.violations, told.violations]

theorem withTracker (told : Told first h) (t : Tracker) : Told first (h.withTracker t) := by
  obtain ⟨m, hread, shows⟩ := told.reads
  exact ⟨told.wellFormed.of_eq rfl rfl rfl, told.sink, ⟨m, hread, shows.of_eq rfl rfl⟩, told.allocations, told.frees,
    told.violations⟩

/-- It is so at every moment of a run that keeps its tracer. -/
theorem of_moment {c : Config}
    (moment : Moment (fun h g => ∃ t, g = h.withTracker t) ((Heap.ofConfig c : Heap κ).withSink .record) h) :
    Told (.initial (Heap.ofConfig c : Heap κ)) h := by
  induction moment with
  | start => exact start c
  | step _ change ha ih => exact ih.step change ha
  | configure _ replaced ih =>
    obtain ⟨t, rfl⟩ := replaced
    exact ih.withTracker t

end Heap.Told

/-- What a heap can become that records from its start, whatever references its users
and the handlers of the host make up. -/
inductive Recorded (host : Host κ) (c : Config) : Heap κ → Prop
  | start : Recorded host c ((Heap.ofConfig c).withSink .record)
  | perform {h g : Heap κ} (r : Request κ) {x : r.Answer} :
      Recorded host c h → host.perform r h = .ok (x, g) → Recorded host c g
  | withTracker {h : Heap κ} (t : Tracker) : Recorded host c h → Recorded host c (h.withTracker t)

namespace Recorded

variable {host : Host κ} {c : Config} {h g : Heap κ}

theorem moment (recorded : Recorded host c h) :
    Moment (fun h g => ∃ t, g = h.withTracker t) ((Heap.ofConfig c : Heap κ).withSink .record) h := by
  induction recorded with
  | start => exact .start
  | perform r _ done ih => exact ih.perform host r done
  | withTracker t _ ih => exact .configure ih ⟨t, rfl⟩

theorem performAll {requests : List (Request κ)} (recorded : Recorded host c h)
    (hp : host.performAll requests h = .ok g) : Recorded host c g :=
  Host.performAll_induct (fun r _ recorded done => .perform r recorded done) recorded hp

end Recorded

/-- The stack of a size is what the links of its class visit; a size without a class has none. -/
theorem Replay.Shows.linked {m : Replay} {h : Heap κ} (shows : m.Shows h) (size : Nat) :
    Linked h.store.slots size ((h.store.sizeClass? size).bind SizeClass.head) (m.parked size) := by
  cases hc : h.store.sizeClass? size with
  | some c =>
    obtain ⟨hmem, rfl⟩ := Store.sizeClass?_mem hc
    exact shows.formed.linked c hmem
  | none =>
    rw [shows.stack_of_none hc]
    rfl

/-- **The log determines the heap.** Whatever was asked of a heap that records from its start, and whatever references
were forged, a reader of its log can make sense of every event, and knows the live objects with their types' names
and sizes, the parked blocks and the vacant slots in their order, and the first index never used. The totals of the
ledger and the violations are the numbers of events that tell of them. -/
theorem log_determines_heap {host : Host κ} {c : Config} {h : Heap κ} (recorded : Recorded host c h) :
    (∃ m, (Replay.initial (Heap.ofConfig c : Heap κ)).run h.tracer.events.toList = some m ∧
      (∀ r, m.live r = (h.object? r).map fun o => ⟨h.types.nameOf o.type, o.size, o.immortal⟩) ∧
      (∀ size, Linked h.store.slots size ((h.store.sizeClass? size).bind SizeClass.head) (m.parked size)) ∧
      m.vacant = h.store.vacant ∧ m.next = h.store.slots.size) ∧
    h.ledger.counts.totalAllocations = h.tracer.events.toList.countP Event.isAllocation ∧
    h.ledger.counts.totalFrees = h.tracer.events.toList.countP Event.isFree ∧
    h.violations = h.tracer.events.toList.countP Event.isViolation := by
  have told := Heap.Told.of_moment recorded.moment
  obtain ⟨m, hread, shows⟩ := told.reads
  refine ⟨⟨m, hread, ?_, shows.linked, shows.vacant, shows.next⟩, told.allocations, told.frees, told.violations⟩
  exact shows.live

namespace Stock

/-- A short is parked, a tuple takes over another one, a reference that names nothing is
given back, the parked block is used again, the tuple goes with its item, and `None` is
asked for. -/
def recordedRequests : List (Request Name) :=
  [.short 300, .short 301, .release ⟨3⟩, .tuple [⟨4⟩], .release ⟨9⟩, .short 302, .release ⟨5⟩, .none]

def recordedEvents : List Event :=
  [.allocate ⟨3⟩ "short" 16, .allocate ⟨4⟩ "short" 16, .park ⟨3⟩ 16, .allocate ⟨5⟩ "tuple" 32,
    .violation (.unknown ⟨9⟩), .reuse ⟨3⟩ "short" 16, .free ⟨5⟩ 32, .park ⟨4⟩ 16, .hit ⟨0⟩]

end Stock

/-- The log of such a run tells that one block is parked and one slot is vacant. -/
theorem log_determines_heap_reused : ∃ (h : Heap Stock.Name) (m : Replay),
    Recorded (Stock.host 8) Stock.sampleConfig h ∧ h.tracer.events.toList = Stock.recordedEvents ∧
    (Replay.initial (Heap.ofConfig Stock.sampleConfig : Heap Stock.Name)).run Stock.recordedEvents = some m ∧
    m.parked 16 = [⟨4⟩] ∧ m.vacant = [⟨5⟩] ∧ m.next = 6 ∧
    Linked h.store.slots 16 ((h.store.sizeClass? 16).bind SizeClass.head) [⟨4⟩] ∧ h.store.vacant = [⟨5⟩] ∧
    h.ledger.counts.totalAllocations = 3 ∧ h.ledger.counts.totalFrees = 1 ∧ h.violations = 1 := by
  have hrun : (((Stock.host 8).performAll Stock.recordedRequests
      ((Heap.ofConfig Stock.sampleConfig).withSink .record)).toOption).map (·.tracer.events.toList) =
        some Stock.recordedEvents := by decide +kernel
  have hread : ((Replay.initial (Heap.ofConfig Stock.sampleConfig : Heap Stock.Name)).run Stock.recordedEvents).map
      (fun m => (m.parked 16, m.vacant, m.next)) = some ([⟨4⟩], [⟨5⟩], 6) := by decide +kernel
  obtain ⟨h, hp, hevents⟩ := Reached.of_performAll _ hrun
  have recorded : Recorded (Stock.host 8) Stock.sampleConfig h := .performAll .start hp
  obtain ⟨⟨m, hm, -, linked, vacant, next⟩, allocations, frees, violations⟩ := log_determines_heap recorded
  rw [hevents] at hm allocations frees violations
  rw [hm] at hread
  obtain ⟨hstack, hvacant, hnext⟩ : m.parked 16 = [⟨4⟩] ∧ m.vacant = [⟨5⟩] ∧ m.next = 6 := by simpa using hread
  exact ⟨h, m, recorded, hevents, hm, hstack, hvacant, hnext, hstack ▸ linked 16, vacant.symm.trans hvacant,
    allocations, frees, violations⟩

end CountedHeap
