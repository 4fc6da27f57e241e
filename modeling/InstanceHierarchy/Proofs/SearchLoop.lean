import InstanceHierarchy.Proofs.Distance

/-!
# The search for ancestors as a loop

The search can be told as a loop over a queue.  A turn takes the first id off the queue.  An id that
was expanded before is passed over; any other is expanded, which puts its parents behind the queue
and lists those that are new.  Ids may wait in the queue several times, and the queue grows while it
is worked off.

The loop keeps the ids that it expanded, and the search keeps the edges that none of them leave.
One turn of the loop is one round of the search, so the loop ends, and ends with what the search
finds.  It takes one turn for every start id and one for every parent edge that it can get to.
-/

namespace InstanceHierarchy

open Relation

/-- A search under way. -/
structure Search where
  /-- The queue. -/
  waiting : List Id
  expanded : List Id
  /-- What is listed so far. -/
  found : List Id

namespace Search

/-- The search before its first turn. -/
def start (ids : List Id) : Search := ⟨ids, [], []⟩

/-- Take the first id off the queue.  Nothing is left to do when the queue is empty. -/
def turn (g : Graph) (s : Search) : Search :=
  match s.waiting with
  | [] => s
  | id :: waiting =>
      if id ∈ s.expanded then { s with waiting }
      else
        let parents := g.targets id EdgeLabel.hasParent
        { waiting := waiting ++ parents
          expanded := id :: s.expanded
          found := appendNew s.found parents }

/-- The loop takes a number of turns, each of them while an id is waiting, and ends. -/
inductive Ends (g : Graph) : Search → Nat → Search → Prop where
  | done {s : Search} (empty : s.waiting = []) : Ends g s 0 s
  | more {s last : Search} {turns : Nat} {id : Id} {waiting : List Id}
      (next : s.waiting = id :: waiting) (rest : Ends g (s.turn g) turns last) :
      Ends g s (turns + 1) last

/-- The parent edges, child first, that leave no expanded id. -/
def unused (g : Graph) (s : Search) : List (Id × Id) :=
  g.parentPairs.filter fun e => e.1 ∉ s.expanded

/-- What the search finds from here. -/
def outcome (g : Graph) (s : Search) : List Id := ancestorsFrom (s.unused g) s.found s.waiting

/-- The turns that are left at most. -/
def left (g : Graph) (s : Search) : Nat := (s.unused g).length + s.waiting.length

variable {g : Graph} {s last : Search} {ids waiting : List Id} {id : Id} {turns : Nat}

theorem unused_start : (start ids).unused g = g.parentPairs := by
  simp [unused, start]

theorem outcome_start : (start ids).outcome g = g.ancestors ids := by
  rw [outcome, unused_start]
  rfl

theorem outcome_of_empty (h : s.waiting = []) : s.outcome g = s.found := by
  rw [outcome, h, ancestorsFrom]

/-! ## One turn -/

/-- The unused edges give an id its parents, unless it was expanded before. -/
theorem parentsAmong_unused : parentsAmong (s.unused g) id =
    if id ∈ s.expanded then [] else g.targets id EdgeLabel.hasParent := by
  by_cases hid : id ∈ s.expanded
  · have hnone : ∀ p, p ∉ parentsAmong (s.unused g) id := by
      intro p hp
      have hlead := mem_parentsAmong.1 hp
      unfold Leads unused at hlead
      simp [hid] at hlead
    rw [if_pos hid]
    exact List.eq_nil_iff_forall_not_mem.2 hnone
  · rw [if_neg hid]
    unfold parentsAmong unused Graph.parentPairs Graph.edgesWithLabel Graph.targets
    rw [List.filter_filter, List.filter_map, List.filter_filter, List.map_map]
    congr 1
    refine List.filter_congr fun e _ => ?_
    by_cases he : e.source = id
    · simp [he, hid]
    · simp [he]

/-- One more id is expanded, and the edges that leave it are used up. -/
theorem unused_eq {after : Search} (h : ∀ x, x ∈ after.expanded ↔ x = id ∨ x ∈ s.expanded) :
    after.unused g = pairsWithout (s.unused g) id := by
  unfold pairsWithout unused
  rw [List.filter_filter]
  refine List.filter_congr fun e _ => ?_
  by_cases he : e.1 = id <;> simp [h, he]

/-- A turn of the loop is a round of the search. -/
theorem turn_eq (h : s.waiting = id :: waiting) :
    (s.turn g).waiting = waiting ++ parentsAmong (s.unused g) id ∧
      (∀ x, x ∈ (s.turn g).expanded ↔ x = id ∨ x ∈ s.expanded) ∧
      (s.turn g).found = appendNew s.found (parentsAmong (s.unused g) id) ∧
      (s.turn g).unused g = pairsWithout (s.unused g) id := by
  rw [parentsAmong_unused]
  by_cases hid : id ∈ s.expanded
  · have hturn : s.turn g = { s with waiting } := by
      simp [turn, h, hid]
    have hexpanded : ∀ x, x ∈ (s.turn g).expanded ↔ x = id ∨ x ∈ s.expanded := by
      intro x
      rw [hturn]
      exact (or_iff_right_of_imp fun hx => hx ▸ hid).symm
    refine ⟨?_, hexpanded, ?_, unused_eq hexpanded⟩
    · rw [hturn, if_pos hid, List.append_nil]
    · rw [hturn, if_pos hid, appendNew]
  · have hturn : s.turn g = ⟨waiting ++ g.targets id EdgeLabel.hasParent, id :: s.expanded,
        appendNew s.found (g.targets id EdgeLabel.hasParent)⟩ := by
      simp [turn, h, hid]
    have hexpanded : ∀ x, x ∈ (s.turn g).expanded ↔ x = id ∨ x ∈ s.expanded := by
      intro x
      rw [hturn, List.mem_cons]
    refine ⟨?_, hexpanded, ?_, unused_eq hexpanded⟩
    · rw [hturn, if_neg hid]
    · rw [hturn, if_neg hid]

theorem outcome_turn (h : s.waiting = id :: waiting) : (s.turn g).outcome g = s.outcome g := by
  obtain ⟨hqueue, -, hfound, hunused⟩ := turn_eq (g := g) h
  rw [outcome, hunused, hfound, hqueue, outcome, h, ancestorsFrom]

/-- Every turn uses up one of the turns that are left. -/
theorem left_turn (h : s.waiting = id :: waiting) : (s.turn g).left g + 1 = s.left g := by
  obtain ⟨hqueue, -, -, hunused⟩ := turn_eq (g := g) h
  have hsplit := length_pairsWithout (s.unused g) id
  unfold left
  rw [hunused, hqueue, h, List.length_append, List.length_cons]
  omega

/-- What the loop has met so far are the start ids and what it found. -/
def Met (ids : List Id) (s : Search) : Prop :=
  ∀ x, x ∈ s.waiting ∨ x ∈ s.expanded ↔ x ∈ ids ∨ x ∈ s.found

theorem met_start : (start ids).Met ids := by
  intro x
  simp [start]

theorem Met.turn (hmet : s.Met ids) (h : s.waiting = id :: waiting) : (s.turn g).Met ids := by
  obtain ⟨hqueue, hexpanded, hfound, -⟩ := turn_eq (g := g) h
  intro x
  have hx := hmet x
  rw [h, List.mem_cons] at hx
  rw [hqueue, hexpanded, hfound, List.mem_append, mem_appendNew, ← or_assoc (a := x ∈ ids), ← hx]
  grind

/-! ## The loop -/

/-- The loop comes to an end: each turn leaves fewer of them. -/
theorem exists_ends (g : Graph) (s : Search) : ∃ turns last, s.Ends g turns last := by
  cases hqueue : s.waiting with
  | nil => exact ⟨0, s, .done hqueue⟩
  | cons id waiting =>
      have hturn := left_turn (g := g) hqueue
      obtain ⟨turns, last, hends⟩ := exists_ends g (s.turn g)
      exact ⟨turns + 1, last, .more hqueue hends⟩
  termination_by s.left g

namespace Ends

theorem empty (h : s.Ends g turns last) : last.waiting = [] := by
  induction h with
  | done hempty => exact hempty
  | more _ _ ih => exact ih

theorem found (h : s.Ends g turns last) : last.found = s.outcome g := by
  induction h with
  | done hempty => exact (outcome_of_empty hempty).symm
  | more hnext _ ih => exact ih.trans (outcome_turn hnext)

theorem left (h : s.Ends g turns last) : last.left g + turns = s.left g := by
  induction h with
  | done _ => rfl
  | more hnext _ ih =>
      have hturn := left_turn (g := g) hnext
      omega

theorem met (h : s.Ends g turns last) (hmet : s.Met ids) : last.Met ids := by
  induction h with
  | done _ => exact hmet
  | more hnext _ ih => exact ih (hmet.turn hnext)

/-- Besides the start ids the loop works off the parents of all that it met. -/
theorem turns_eq (h : (start ids).Ends g turns last) : turns =
    ids.length + g.parentPairs.countP fun e => e.1 ∈ ids ++ g.ancestors ids := by
  have hmet := h.met met_start
  have hexpanded : ∀ x, x ∈ last.expanded ↔ x ∈ ids ++ g.ancestors ids := by
    intro x
    have hx := hmet x
    rw [h.empty, h.found, outcome_start] at hx
    simpa using hx
  have hunused : (last.unused g).length =
      g.parentPairs.countP fun e => ¬ e.1 ∈ ids ++ g.ancestors ids := by
    rw [unused, ← List.countP_eq_length_filter]
    exact List.countP_congr fun e _ => by simp [hexpanded]
  have hsplit := List.length_eq_countP_add_countP
    (fun e : Id × Id => decide (e.1 ∈ ids ++ g.ancestors ids)) (l := g.parentPairs)
  simp only [decide_eq_true_eq] at hsplit
  have hleft := h.left
  unfold Search.left at hleft
  rw [unused_start, h.empty, hunused] at hleft
  simp only [start, List.length_nil] at hleft
  omega

end Ends

end Search

namespace Graph

/-- The search for ancestors ends, as a loop over a queue, after one turn for every start id and one
for every parent edge that leaves a start id or an ancestor.  It lists exactly what chains of one
parent edge or more lead to from a start id, a start id on the same terms as any other, each once,
and in the order of the length of the shortest such chains. -/
theorem ancestors_nearest_first (g : Graph) (start : List Id) :
    (∃ last, (Search.start start).Ends g
        (start.length + g.parentPairs.countP fun e => e.1 ∈ start ++ g.ancestors start) last ∧
      last.found = g.ancestors start) ∧
    (∀ x, x ∈ g.ancestors start ↔ ∃ s ∈ start, TransGen g.Up s x) ∧
    (g.ancestors start).Nodup ∧
    (g.ancestors start).Pairwise fun a b =>
      distanceFrom g.Up start a ≤ distanceFrom g.Up start b := by
  refine ⟨?_, fun x => mem_ancestors, g.nodup_ancestors start, g.ancestors_ascend_from start⟩
  obtain ⟨turns, last, hends⟩ := Search.exists_ends g (.start start)
  have hfound : last.found = g.ancestors start := hends.found.trans Search.outcome_start
  exact ⟨last, hends.turns_eq ▸ hends, hfound⟩

end Graph
end InstanceHierarchy
