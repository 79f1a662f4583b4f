/-
# Pooling is invisible

Two heaps that differ in the blocks they park hand out different references, from
the first block on that one of them takes from a free list. Their user holds pairs of
references, one for each heap, and asks both the same: `Duet` puts such requests in a
row. In every two heaps that are reached this way the live objects correspond, and
the references of each pair do. Whatever both are asked next has the same outcome.

A fresh block may be refused and a parked one may not, so the trackers have no limit on
blocks or bytes. The handlers of the host must not see where objects are.

Key definitions: `Duet`, `Paired`.
Key theorems: `Paired.perform`, `Mirror.objectsByType`, `pooling_invisible`.
-/
import Mathlib.Data.Multiset.Bind
import CountedHeap.Proofs.Balance
import CountedHeap.Proofs.Inventory
import CountedHeap.Proofs.Lockstep

namespace CountedHeap

variable {κ : Role → Type}

/-- References, each with the one that `f` puts in its place. -/
def partners (f : Ref → Ref) (refs : List Ref) : Multiset (Ref × Ref) := refs.map fun a => (a, f a)

theorem map_fst_partners (f : Ref → Ref) (refs : List Ref) : (partners f refs).map Prod.fst = refs := by
  unfold partners
  rw [Multiset.map_coe, List.map_map]
  exact congrArg _ (List.map_id refs)

/-- What two heaps become by the same requests, with corresponding references, and the
pairs of references that their user holds then. -/
inductive Duet (host : Host κ) (start start' : Heap κ) : Heap κ → Heap κ → Multiset (Ref × Ref) → Prop
  | start : Duet host start start' start start' 0
  | perform {h h' g g' : Heap κ} {rest : Multiset (Ref × Ref)} (r : Request κ) (f : Ref → Ref) {x : r.Answer}
      {x' : (r.map f).Answer} (duet : Duet host start start' h h' (partners f r.consumes + rest))
      (borrowed : ∀ a ∈ r.borrows, (a, f a) ∈ rest) (done : host.perform r h = .ok (x, g))
      (done' : host.perform (r.map f) h' = .ok (x', g')) :
      Duet host start start' g g' (r.makes x ×ˢ (r.map f).makes x' + rest)
  | withTracker {h h' : Heap κ} {held : Multiset (Ref × Ref)} (t : Tracker) (roomy : t.Roomy)
      (duet : Duet host start start' h h' held) : Duet host start start' (h.withTracker t) (h'.withTracker t) held
  | withSink {h h' : Heap κ} {held : Multiset (Ref × Ref)} (sink sink' : Sink)
      (duet : Duet host start start' h h' held) : Duet host start start' (h.withSink sink) (h'.withSink sink') held

/-- Twins whose user holds pairs that correspond. -/
structure Paired (σ : Equiv.Perm Ref) (held : Multiset (Ref × Ref)) (h h' : Heap κ) : Prop where
  twin : Twin σ (held.map Prod.fst) h h'
  related : ∀ p ∈ held, p.2 = σ p.1

/-! ### Requests with corresponding references -/

namespace Request

variable {f g : Ref → Ref}

/-- Only the references of a request matter for its renaming. -/
theorem map_congr {r : Request κ} (hc : ∀ a ∈ r.consumes, f a = g a) (hb : ∀ a ∈ r.borrows, f a = g a) :
    r.map f = r.map g := by
  cases r with
  | none | bool | short | allocate | register | enterRecursion | leaveRecursion => rfl
  | tuple items => exact congrArg Request.tuple (List.map_congr_left hc)
  | release a | tryRelease a | unary op a | fib a => simp only [map, hc a List.mem_cons_self]
  | item a index | acquire a => simp only [map, hb a List.mem_cons_self]
  | binary op a b | compare op a b => simp only [map, hc a (by simp [consumes]), hc b (by simp [consumes])]
  | power a b c =>
    simp only [map, hc a (by simp [consumes]), hc b (by simp [consumes]), hc c (by simp [consumes])]
  | inspect q =>
    cases q with
    | object a | typeName a | isTrue a | length a => simp only [map, Query.map, hb a List.mem_cons_self]
    | compare op a b =>
      simp only [map, Query.map, hb a (by simp [borrows, Query.refs]), hb b (by simp [borrows, Query.refs])]

/-- The references of the request do not occur in a renamed answer. -/
theorem answer_heq (τ : Ref → Ref) (r : Request κ) (x : r.Answer) : HEq (r.answer f τ x) (r.answer g τ x) := by
  cases r with
  | inspect q => cases q <;> exact HEq.rfl
  | _ => exact HEq.rfl

/-- An answer brings one reference or none. -/
theorem makes_cases (r : Request κ) (x : r.Answer) : r.makes x = 0 ∨ ∃ a, r.makes x = {a} := by
  cases r with
  | none | bool | acquire => exact Or.inr ⟨x, rfl⟩
  | release | tryRelease | compare | register | enterRecursion | leaveRecursion | inspect => exact Or.inl rfl
  | short | allocate | tuple | item | unary | binary | power | fib =>
    cases x with
    | ok a => exact Or.inr ⟨a, rfl⟩
    | error e => exact Or.inl rfl

end Request

/-- The pairs that an answer and its renaming bring. -/
theorem Request.makes_product {f : Ref → Ref} (τ : Ref → Ref) (r : Request κ) (x : r.Answer) :
    r.makes x ×ˢ (r.map f).makes (r.answer f τ x) = (r.makes x).map fun a => (a, τ a) := by
  rw [Request.makes_answer]
  rcases r.makes_cases x with hx | ⟨a, hx⟩ <;> rw [hx]
  · rfl
  · rfl

/-- The same request in other words. -/
theorem Tandem.of_eq {host : Host κ} {σ : Equiv.Perm Ref} {rest : Multiset Ref} {h h' : Heap κ} {r s s' : Request κ}
    {answer : Equiv.Perm Ref → r.Answer → s.Answer} {answer' : Equiv.Perm Ref → r.Answer → s'.Answer}
    (t : Tandem (fun τ x y => y = answer τ x) r.makes rest σ (host.perform r h) (host.perform s h'))
    (he : s' = s) (same : ∀ τ x, HEq (answer' τ x) (answer τ x)) :
    Tandem (fun τ x y => y = answer' τ x) r.makes rest σ (host.perform r h) (host.perform s' h') := by
  subst he
  have : answer' = answer := funext₂ fun τ x => eq_of_heq (same τ x)
  rwa [this]

namespace Paired

variable {host : Host κ} {σ : Equiv.Perm Ref} {h h' : Heap κ} {held rest : Multiset (Ref × Ref)}

/-- **The same request to both.** -/
theorem perform (uniform : host.Uniform) {r : Request κ} {f : Ref → Ref}
    (paired : Paired σ (partners f r.consumes + rest) h h') (borrowed : ∀ a ∈ r.borrows, (a, f a) ∈ rest) :
    Matches (fun p q => ∃ τ : Equiv.Perm Ref, q.1 = r.answer f τ p.1 ∧
        Paired τ (r.makes p.1 ×ˢ (r.map f).makes q.1 + rest) p.2 q.2)
      (host.perform r h) (host.perform (r.map f) h') := by
  have consumed : ∀ a ∈ r.consumes, f a = σ a := fun a ha =>
    paired.related (a, f a) (Multiset.mem_add.mpr (Or.inl (List.mem_map.mpr ⟨a, ha, rfl⟩)))
  have looked : ∀ a ∈ r.borrows, f a = σ a := fun a ha =>
    paired.related (a, f a) (Multiset.mem_add.mpr (Or.inr (borrowed a ha)))
  have t : Twin σ (r.consumes + rest.map Prod.fst) h h' := by
    have t := paired.twin
    rwa [Multiset.map_add, map_fst_partners] at t
  have asked := perform_attuned uniform host.frames r t fun a ha => Multiset.mem_map.mpr ⟨_, borrowed a ha, rfl⟩
  have asked' := asked.of_eq (Request.map_congr consumed looked) fun τ x => Request.answer_heq τ r x
  refine Matches.mono asked' fun p q hp => ?_
  obtain ⟨τ, keeps, hy, t'⟩ := hp
  refine ⟨τ, hy, ?_⟩
  rw [hy, Request.makes_product]
  refine ⟨?_, fun b hb => ?_⟩
  · rw [Multiset.map_add, Multiset.map_map]
    exact (Multiset.map_id (r.makes p.1)).symm ▸ t'
  · rcases Multiset.mem_add.mp hb with hb | hb
    · obtain ⟨a, -, rfl⟩ := Multiset.mem_map.mp hb
      rfl
    · rw [keeps b.1 (Multiset.mem_map.mpr ⟨b, hb, rfl⟩)]
      exact paired.related b (Multiset.mem_add.mpr (Or.inr hb))

theorem withTracker (paired : Paired σ held h h') {t : Tracker} (roomy : t.Roomy) :
    Paired σ held (h.withTracker t) (h'.withTracker t) :=
  ⟨paired.twin.quiet (.withTracker t) (.withTracker t) rfl rfl
    { paired.twin.mirror with roomy := ⟨roomy, roomy⟩, maxDepth := rfl }, paired.related⟩

theorem withSink (paired : Paired σ held h h') (sink sink' : Sink) :
    Paired σ held (h.withSink sink) (h'.withSink sink') :=
  ⟨paired.twin.quiet (.withSink sink) (.withSink sink') rfl rfl { paired.twin.mirror with }, paired.related⟩

/-- References are the same in one heap if and only if they are in the other. -/
theorem same_iff (paired : Paired σ held h h') {p q : Ref × Ref} (hp : p ∈ held) (hq : q ∈ held) :
    p.1 = q.1 ↔ p.2 = q.2 := by
  rw [paired.related p hp, paired.related q hq]
  exact σ.injective.eq_iff.symm

/-- At the start the heaps differ in their classes only. -/
theorem ofConfig {c : Config} (unlimited : c.limits.maxAllocations = none ∧ c.limits.maxMemory = none)
    (pool : PoolConfig) : Paired (.refl Ref) 0 (.ofConfig c : Heap κ) (.ofConfig { c with pool := pool }) := by
  have roomy : (Tracker.ofLimits c.limits).Roomy := by
    unfold Tracker.ofLimits
    split
    · trivial
    · exact unlimited
  refine ⟨⟨⟨fun r => ?_, rfl, rfl, fun _ _ => rfl, rfl, ⟨roomy, roomy⟩, rfl⟩, ⟨0, ?_⟩, .ofConfig _⟩, fun p hp => ?_⟩
  · show (Heap.ofConfig c : Heap κ).object? r = _
    cases (Heap.ofConfig c : Heap κ).object? r with
    | none => rfl
    | some o => exact congrArg some o.map_id.symm
  · exact Heap.balanced_ofConfig c
  · exact absurd hp (Multiset.notMem_zero p)

end Paired

/-- **Heaps that are asked the same stay twins.** -/
theorem Duet.paired {host : Host κ} (uniform : host.Uniform) {start start' h h' : Heap κ} {held : Multiset (Ref × Ref)}
    (duet : Duet host start start' h h' held) (first : ∃ σ, Paired σ 0 start start') : ∃ σ, Paired σ held h h' := by
  induction duet with
  | start => exact first
  | perform r f duet borrowed done done' ih =>
    obtain ⟨σ, paired⟩ := ih
    have asked := paired.perform uniform borrowed
    rw [done, done'] at asked
    obtain ⟨τ, -, last⟩ := asked
    exact ⟨τ, last⟩
  | withTracker t roomy duet ih =>
    obtain ⟨σ, paired⟩ := ih
    exact ⟨σ, paired.withTracker roomy⟩
  | withSink sink sink' duet ih =>
    obtain ⟨σ, paired⟩ := ih
    exact ⟨σ, paired.withSink sink sink'⟩

/-! ### What is counted -/

namespace Heap

variable (h : Heap κ) (p : Object → Bool)

theorem any_object?_iff (r : Ref) : (h.object? r).any p = true ↔
    ∃ slot, h.store.slots[r.index]? = some slot ∧ slot.object?.any p = true := by
  unfold object? Store.object?
  cases h.store.slots[r.index]? with
  | none => simp
  | some slot => simp

/-- A list that names each object of a kind once is as long as there are such objects. -/
theorem length_eq_countP_objects {refs : List Ref} (nodup : refs.Nodup)
    (mem : ∀ r, r ∈ refs ↔ (h.object? r).any p = true) : refs.length = h.liveObjects.countP p := by
  have hc : h.liveObjects.countP p = h.store.slots.toList.countP fun slot => slot.object?.any p := by
    rw [liveObjects, List.countP_filterMap]
    refine List.countP_congr fun slot _ => ?_
    cases slot.object? <;> simp
  rw [hc]
  exact length_eq_countP nodup fun r => (mem r).trans (h.any_object?_iff p r)

/-- The objects of a kind can be listed. -/
theorem exists_refs : ∃ refs : List Ref, refs.Nodup ∧ ∀ r, r ∈ refs ↔ (h.object? r).any p = true := by
  have hinj : Function.Injective Ref.mk := fun a b he => by cases he; rfl
  refine ⟨((List.range h.store.slots.size).map Ref.mk).filter fun r => (h.object? r).any p,
    (List.nodup_range.map hinj).filter _, fun r => ?_⟩
  rw [List.mem_filter, and_iff_right_of_imp]
  intro hr
  obtain ⟨slot, hs, -⟩ := (h.any_object?_iff p r).mp hr
  exact List.mem_map.mpr ⟨r.index, List.mem_range.mpr (Array.getElem?_eq_some_iff.mp hs).1, rfl⟩

end Heap

namespace Mirror

variable {σ : Equiv.Perm Ref} {h h' : Heap κ}

/-- There are as many objects of a kind in both heaps. -/
theorem countP (m : Mirror σ h h') (p : Object → Bool) (hp : ∀ o : Object, p (o.map σ) = p o) :
    h'.liveObjects.countP p = h.liveObjects.countP p := by
  obtain ⟨refs, nodup, mem⟩ := h.exists_refs p
  have hσ : ∀ r, (h'.object? (σ r)).any p = (h.object? r).any p := fun r => by
    rw [m.objects]
    cases h.object? r with
    | none => rfl
    | some o => exact hp o
  have hrefs : ∀ r, r ∈ refs.map σ ↔ (h'.object? r).any p = true := fun r => by
    rw [← σ.apply_symm_apply r, List.mem_map_of_injective σ.injective, mem, hσ]
  calc h'.liveObjects.countP p = (refs.map σ).length :=
        (h'.length_eq_countP_objects p (nodup.map σ.injective) hrefs).symm
    _ = refs.length := List.length_map _
    _ = h.liveObjects.countP p := h.length_eq_countP_objects p nodup mem

theorem liveObjects (m : Mirror σ h h') : h'.snapshot.liveObjects = h.snapshot.liveObjects := by
  have hc := m.countP (fun _ => true) fun _ => rfl
  rwa [List.countP_true, h.length_liveObjects, h'.length_liveObjects] at hc

theorem objectsByType (m : Mirror σ h h') :
    h'.snapshot.objectsByType.toList = h.snapshot.objectsByType.toList := by
  refine Std.TreeMap.Equiv.toList_eq (.of_forall_constGet?_eq fun name => ?_)
  have hc := m.countP (fun o => h.types.nameOf o.type = name) fun _ => rfl
  rw [h.getElem?_objectsByType, h'.getElem?_objectsByType, m.types, hc]

end Mirror

/-! ### A duet of the stock host -/

namespace Host

/-- What two heaps become by requests, each with a translation of its references for the
second heap, unless one of them uses a pair that is not held, or stops at a fault. -/
def playBoth (host : Host κ) : List (Request κ × (Ref → Ref)) → Heap κ → Heap κ → Multiset (Ref × Ref) →
    Option (Heap κ × Heap κ × Multiset (Ref × Ref))
  | [], h, h', held => some (h, h', held)
  | (r, f) :: requests, h, h', held =>
    if partners f r.consumes ≤ held ∧ ∀ a ∈ r.borrows, (a, f a) ∈ held - partners f r.consumes then
      match host.perform r h, host.perform (r.map f) h' with
      | .ok (x, g), .ok (x', g') =>
        host.playBoth requests g g' (r.makes x ×ˢ (r.map f).makes x' + (held - partners f r.consumes))
      | _, _ => none
    else none

end Host

/-- Requests that are played are a duet. -/
theorem Duet.play {host : Host κ} {start start' g g' : Heap κ} {held' : Multiset (Ref × Ref)} :
    ∀ {requests : List (Request κ × (Ref → Ref))} {h h' : Heap κ} {held : Multiset (Ref × Ref)},
      Duet host start start' h h' held → host.playBoth requests h h' held = some (g, g', held') →
      Duet host start start' g g' held'
  | [], _, _, _, duet, hp => by
    cases hp
    exact duet
  | (r, f) :: requests, h, h', held, duet, hp => by
    rw [Host.playBoth] at hp
    split at hp
    · rename_i hr
      obtain ⟨hle, borrowed⟩ := hr
      split at hp
      · rename_i x g x' g' done done'
        rw [← Multiset.add_sub_cancel hle, add_comm] at duet
        exact play (.perform r f duet borrowed done done') hp
      · cases hp
    · cases hp

namespace Stock

/-- A short and an empty tuple are made and given back. Where blocks of 16 bytes are parked
only the slot of the tuple becomes vacant, so of the two objects that are made next the
second gets a slot of its own there, and the slot of the short elsewhere. Then they are
paired. -/
def reseated : List (Request Name × (Ref → Ref)) :=
  [(.register pairType, id), (.short 1, id), (.tuple [], id), (.release ⟨3⟩, id), (.release ⟨4⟩, id),
    (.allocate ⟨4⟩ 7, id), (.allocate ⟨4⟩ 8, id),
    (.binary .add ⟨4⟩ ⟨5⟩, fun a => if a = ⟨5⟩ then ⟨3⟩ else a)]

end Stock

/-- **Pooling is invisible.** Two heaps of one configuration that differ in what they park, with no limit on blocks
or bytes, are asked the same. Then a permutation `σ` takes the live objects of one to those of the other, with the
items of tuples renamed, and the references held to their partners. Whatever is asked next of both stops at the same
fault or has the same answer, error or success, up to a permutation that holds afterwards. -/
theorem pooling_invisible {host : Host κ} (uniform : host.Uniform) {c : Config}
    (unlimited : c.limits.maxAllocations = none ∧ c.limits.maxMemory = none) (pool : PoolConfig) {h h' : Heap κ}
    {held : Multiset (Ref × Ref)} (duet : Duet host (.ofConfig c) (.ofConfig { c with pool := pool }) h h' held) :
    (∃ σ : Equiv.Perm Ref, (∀ r, h'.object? (σ r) = (h.object? r).map (Object.map σ)) ∧ ∀ p ∈ held, p.2 = σ p.1) ∧
    (∀ p ∈ held, ∀ q ∈ held, p.1 = q.1 ↔ p.2 = q.2) ∧
    h'.snapshot.liveObjects = h.snapshot.liveObjects ∧
    h'.snapshot.objectsByType.toList = h.snapshot.objectsByType.toList ∧
    ∀ (r : Request κ) (f : Ref → Ref) (rest : Multiset (Ref × Ref)), held = partners f r.consumes + rest →
      (∀ a ∈ r.borrows, (a, f a) ∈ rest) →
      Matches (fun p q => ∃ τ : Equiv.Perm Ref, q.1 = r.answer f τ p.1 ∧
          (∀ a, q.2.object? (τ a) = (p.2.object? a).map (Object.map τ)) ∧
          ∀ b ∈ r.makes p.1 ×ˢ (r.map f).makes q.1 + rest, b.2 = τ b.1)
        (host.perform r h) (host.perform (r.map f) h') := by
  obtain ⟨σ, paired⟩ := duet.paired uniform ⟨_, .ofConfig unlimited pool⟩
  have m := paired.twin.mirror
  refine ⟨⟨σ, m.objects, paired.related⟩, fun p hp q hq => paired.same_iff hp hq, m.liveObjects, m.objectsByType,
    fun r f rest he borrowed => ?_⟩
  subst he
  refine Matches.mono (paired.perform uniform borrowed) fun p q hp => ?_
  obtain ⟨τ, hx, last⟩ := hp
  exact ⟨τ, hx, last.twin.mirror.objects, last.related⟩

/-- The pair is in different slots, and so is one of its items. -/
theorem pooling_invisible_reseated : ∃ h h' : Heap Stock.Name,
    Duet (Stock.host 8) (.ofConfig Stock.sampleConfig) (.ofConfig { Stock.sampleConfig with pool := .disabled }) h h'
      {(⟨6⟩, ⟨5⟩)} ∧
    (h.object? ⟨6⟩).map Object.payload = some (.tuple [⟨4⟩, ⟨5⟩]) ∧
    (h'.object? ⟨5⟩).map Object.payload = some (.tuple [⟨4⟩, ⟨3⟩]) ∧
    (∃ σ : Equiv.Perm Ref, (∀ r, h'.object? (σ r) = (h.object? r).map (Object.map σ)) ∧ σ ⟨6⟩ = ⟨5⟩) ∧
    h'.snapshot.liveObjects = h.snapshot.liveObjects := by
  have hplay : ((Stock.host 8).playBoth Stock.reseated (.ofConfig Stock.sampleConfig)
      (.ofConfig { Stock.sampleConfig with pool := .disabled }) 0).map
      (fun p => (p.2.2, (p.1.object? ⟨6⟩).map Object.payload, (p.2.1.object? ⟨5⟩).map Object.payload)) =
      some ({(⟨6⟩, ⟨5⟩)}, some (.tuple [⟨4⟩, ⟨5⟩]), some (.tuple [⟨4⟩, ⟨3⟩])) := by decide +kernel
  obtain ⟨⟨h, h', held⟩, hp, he⟩ := Option.map_eq_some_iff.mp hplay
  simp only [Prod.mk.injEq] at he
  obtain ⟨rfl, left, right⟩ := he
  have duet := Duet.start.play hp
  obtain ⟨⟨σ, objects, related⟩, -, live, -⟩ :=
    pooling_invisible (Stock.host_uniform 8) ⟨rfl, rfl⟩ .disabled duet
  exact ⟨h, h', duet, left, right, ⟨σ, objects, (related _ (Multiset.mem_singleton_self _)).symm⟩, live⟩

end CountedHeap
