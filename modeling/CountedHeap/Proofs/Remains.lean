/-
# What is held determines what is live

Let references be given up to two lines of work that start from the same heap, and let
neither keep anything of its own. Whatever they do in between, the same objects are
live at the end, with the same contents and counts. For an object that can be reached
from what others hold stays where it is and as it is (`Deals.reached_kept`), an object
that can no longer be reached is gone, and the counts follow from what is held and owned.

Key theorem: `Deals.objects_determined`.
-/
import CountedHeap.Proofs.Denotation
import CountedHeap.Proofs.Reachability

namespace CountedHeap

variable {κ : Role → Type}

/-- A sum over a longer list that is at least as large everywhere. -/
theorem sum_map_le {α : Type} (f : α → Nat) : ∀ {l l' : List α}, (∀ i : Nat, l[i]?.elim 0 f ≤ l'[i]?.elim 0 f) →
    (l.map f).sum ≤ (l'.map f).sum
  | [], _, _ => Nat.zero_le _
  | x :: l, [], h => by
    have hx : f x ≤ 0 := h 0
    have tail : (l.map f).sum ≤ (([] : List α).map f).sum := sum_map_le f fun i => h (i + 1)
    rw [List.map_cons, List.sum_cons]
    exact Nat.add_le_add hx tail
  | x :: l, y :: l', h => by
    have hx : f x ≤ f y := h 0
    have tail : (l.map f).sum ≤ (l'.map f).sum := sum_map_le f fun i => h (i + 1)
    rw [List.map_cons, List.map_cons, List.sum_cons, List.sum_cons]
    exact Nat.add_le_add hx tail

namespace Heap

variable {h g g' : Heap κ} {a : Ref} {o : Object}

/-- Where no object is missing, each is owned at least as often. -/
theorem Retains.mentions_le (keeps : g.Retains g') (a : Ref) : g.store.mentions a ≤ g'.store.mentions a := by
  refine sum_map_le _ fun i => ?_
  rw [Array.getElem?_toList, Array.getElem?_toList]
  rw [mentions_slot g ⟨i⟩ a, mentions_slot g' ⟨i⟩ a]
  cases live : g.object? ⟨i⟩ with
  | none => exact Nat.zero_le _
  | some o =>
    obtain ⟨n, live'⟩ := keeps ⟨i⟩ o live
    rw [live']
    exact Nat.le_refl _

/-- Heaps with the same objects, of which the same is held, have the same counts. -/
theorem Balanced.objects_eq {held : Multiset Ref} (b : g.Balanced held) (b' : g'.Balanced held)
    (keeps : g.Retains g') (keeps' : g'.Retains g) (a : Ref) : g'.object? a = g.object? a := by
  have hm : g'.store.mentions a = g.store.mentions a := Nat.le_antisymm (keeps'.mentions_le a) (keeps.mentions_le a)
  cases live : g.object? a with
  | none =>
    cases live' : g'.object? a with
    | none => rfl
    | some o =>
      obtain ⟨n, hn⟩ := keeps' a o live'
      rw [live] at hn
      cases hn
  | some o =>
    obtain ⟨n, live'⟩ := keeps a o live
    have he := b.exact a
    have he' := b'.exact a
    rw [live] at he
    rw [live', hm] at he'
    have hn : n = o.refcount := he'.trans he.symm
    rw [live', hn]

end Heap

namespace Deals

variable {h g g' : Heap κ} {given made rest : Multiset Ref}

/-- **What others can reach stays as it is**, but for its count. -/
theorem reached_kept (d : Deals h given g made) (b : h.Balanced (given + rest)) {root a : Ref} {o : Object}
    (hroot : root ∈ rest) (path : Relation.ReflTransGen h.Owns root a) (live : h.object? a = some o) :
    ∃ n, g.object? a = some { o with refcount := n } := by
  refine d.induct (P := fun g => ∀ a, Relation.ReflTransGen h.Owns root a → ∀ o, h.object? a = some o →
    ∃ n, g.object? a = some { o with refcount := n }) b (fun a _ o live => ⟨o.refcount, live⟩) ?_ a path o live
  intro h' act g' held _ c b' kept a path o live
  obtain ⟨n, live'⟩ := kept a path o live
  -- somebody holds it, or an object owns it that has been kept until here
  have known : a ∈ held + rest ∨ 0 < h'.store.mentions a := by
    cases path with
    | refl => exact Or.inl (Multiset.mem_add.mpr (Or.inr hroot))
    | @tail owner _ path owns =>
      obtain ⟨o', owner_live, ha⟩ := owns
      obtain ⟨m, owner_live'⟩ := kept owner path o' owner_live
      exact Or.inr (Heap.mentions_pos owner_live' ha)
  obtain ⟨m, live''⟩ := c.object_kept b' live' known
  exact ⟨m, live''⟩

/-- What others can reach at the end they could reach at the start. -/
theorem path_back (d : Deals h given g made) (b : h.Balanced (given + rest)) {root a : Ref} (hroot : root ∈ rest)
    (path : Relation.ReflTransGen g.Owns root a) : Relation.ReflTransGen h.Owns root a := by
  have start : ∃ o, h.object? root = some o := b.held_live (Multiset.mem_add.mpr (Or.inr hroot))
  induction path with
  | refl => exact .refl
  | @tail owner a _ owns ih =>
    obtain ⟨o, live⟩ := b.live_of_path start ih
    obtain ⟨n, live'⟩ := d.reached_kept b hroot ih live
    obtain ⟨o', live'', ha⟩ := owns
    rw [live'] at live''
    cases live''
    exact ih.tail ⟨o, live, ha⟩

/-- What one line of work leaves, the other leaves too. -/
theorem retains (d : Deals h given g 0) (d' : Deals h given g' 0) (b : h.Balanced (given + rest)) : g.Retains g' := by
  intro a o live
  have bal := d.balanced b
  rw [zero_add] at bal
  by_cases him : o.immortal = true
  · have hlt := bal.wellFormed.immortal a o live him
    obtain ⟨o₀, n, h₀, live₀⟩ := bal.wellFormed.interned a hlt
    rw [d.interned, ← d'.interned] at hlt h₀
    obtain ⟨o₁, n', h₁, live₁⟩ := (d'.balanced b).wellFormed.interned a hlt
    rw [h₁] at h₀
    cases h₀
    rw [live] at live₀
    cases live₀
    exact ⟨n', live₁⟩
  · obtain ⟨root, hroot, path⟩ := bal.reached_of_live live (Bool.not_eq_true _ ▸ him)
    have back := d.path_back b hroot path
    obtain ⟨o₀, live₀⟩ := b.live_of_path (b.held_live (Multiset.mem_add.mpr (Or.inr hroot))) back
    obtain ⟨n, kept⟩ := d.reached_kept b hroot back live₀
    rw [live] at kept
    cases kept
    obtain ⟨n', kept'⟩ := d'.reached_kept b hroot back live₀
    exact ⟨n', kept'⟩

/-- **What is held determines what is live**, with its contents and its counts. -/
theorem objects_determined (d : Deals h given g 0) (d' : Deals h given g' 0) (b : h.Balanced (given + rest)) (a : Ref) :
    g'.object? a = g.object? a :=
  (d.balanced b).objects_eq (d'.balanced b) (d.retains d' b) (d'.retains d b) a

end Deals

end CountedHeap
