import InstanceHierarchy.Proofs.Observations

/-!
# Edges that are merged in

Mutations that connect nodes ask for edges with one label, pair by pair, and some pairs more than
once.  An edge is added for each pair that is asked for and not joined yet.  So what has been added
since the start is told by the pairs that have been asked for, in whatever order, while the edges of
the start stay where they are.
-/

namespace InstanceHierarchy
namespace Graph

variable {start g g' : Graph} {label : String} {asked asked' : Id → Id → Prop}
  {created : List Edge}

/-- Of the pairs that were asked for, those that were not joined by an edge with the label have got
one each, without properties, and no other edge has come or gone. -/
structure Joins (start : Graph) (label : String) (asked : Id → Id → Prop) (created : List Edge)
    (g : Graph) : Prop where
  edges : g.edges = start.edges ++ created.map fun e => ⟨e, .empty⟩
  labels : ∀ e ∈ created, e.label = label
  once : (created.map fun e => (e.source, e.target)).Nodup
  missing : ∀ a b, (a, b) ∈ created.map (fun e => (e.source, e.target)) ↔
    asked a b ∧ ¬ start.Joined label a b

theorem mergeEdge_of_unjoined {a b : Id} (h : ¬ g.Joined label a b) :
    g.mergeEdge label a b =
      (some (g.addEdge label a b .empty).1, (g.addEdge label a b .empty).2) :=
  if_neg fun hedge => h (hasEdge_iff.1 hedge)

namespace Joins

theorem refl (start : Graph) (label : String) :
    Joins start label (fun _ _ => False) [] start :=
  ⟨by simp, by simp, by simp, by simp⟩

theorem congr (h : Joins start label asked created g) (heq : ∀ a b, asked a b ↔ asked' a b) :
    Joins start label asked' created g :=
  { h with missing := fun a b => (h.missing a b).trans (and_congr_left fun _ => heq a b) }

theorem of_edges (h : Joins start label asked created g) (hedges : g'.edges = g.edges) :
    Joins start label asked created g' :=
  { h with edges := hedges.trans h.edges }

/-- Edges with another label are those of the start. -/
theorem joined_of_ne (h : Joins start label asked created g) {l : String} (hne : l ≠ label)
    {a b : Id} : g.Joined l a b ↔ start.Joined l a b := by
  rw [joined_iff, joined_iff, h.edges]
  constructor
  · rintro ⟨e, he, hl, hends⟩
    rcases List.mem_append.1 he with he | he
    · exact ⟨e, he, hl, hends⟩
    · obtain ⟨e', he', rfl⟩ := List.mem_map.1 he
      exact absurd (hl.symm.trans (h.labels e' he')) hne
  · rintro ⟨e, he, hends⟩
    exact ⟨e, List.mem_append_left _ he, hends⟩

/-- Edges with the label are those of the start and those that were asked for. -/
theorem joined (h : Joins start label asked created g) {a b : Id} :
    g.Joined label a b ↔ start.Joined label a b ∨ asked a b := by
  rw [joined_iff, h.edges]
  constructor
  · rintro ⟨e, he, hl, rfl, rfl⟩
    rcases List.mem_append.1 he with he | he
    · exact Or.inl (joined_iff.2 ⟨e, he, hl, rfl, rfl⟩)
    · obtain ⟨e', he', rfl⟩ := List.mem_map.1 he
      exact Or.inr ((h.missing _ _).1 (List.mem_map.2 ⟨e', he', rfl⟩)).1
  · intro hjoined
    by_cases hold : start.Joined label a b
    · obtain ⟨e, he, hends⟩ := joined_iff.1 hold
      exact ⟨e, List.mem_append_left _ he, hends⟩
    · obtain ⟨e, he, heq⟩ := List.mem_map.1 ((h.missing a b).2 ⟨hjoined.resolve_left hold, hold⟩)
      obtain ⟨rfl, rfl⟩ := Prod.mk.inj heq
      exact ⟨⟨e, .empty⟩, List.mem_append_right _ (List.mem_map.2 ⟨e, he, rfl⟩), h.labels e he,
        rfl, rfl⟩

/-- One more pair is asked for. -/
theorem mergeEdge (h : Joins start label asked created g) (a b : Id) :
    Joins start label (fun x y => asked x y ∨ (x = a ∧ y = b))
      (created ++ (g.mergeEdge label a b).1.toList) (g.mergeEdge label a b).2 := by
  by_cases hjoined : g.Joined label a b
  · -- the edge is there, from the start or because it was asked for before
    rw [mergeEdge_of_joined hjoined]
    simp only [Option.toList_none, List.append_nil]
    refine { h with missing := fun x y => (h.missing x y).trans (and_congr_left fun hstart => ?_) }
    refine ⟨Or.inl, fun hasked => hasked.elim id ?_⟩
    rintro ⟨rfl, rfl⟩
    exact (h.joined.1 hjoined).resolve_left hstart
  · have hstart : ¬ start.Joined label a b := fun hstart => hjoined (h.joined.2 (Or.inl hstart))
    have hnew : (a, b) ∉ created.map fun e => (e.source, e.target) := fun hmem =>
      hjoined (h.joined.2 (Or.inr ((h.missing a b).1 hmem).1))
    rw [mergeEdge_of_unjoined hjoined]
    refine ⟨?_, ?_, ?_, fun x y => ?_⟩
    · show g.edges ++ [_] = _
      rw [h.edges, List.append_assoc, List.map_append]
      rfl
    · intro e he
      rcases List.mem_append.1 he with he | he
      · exact h.labels e he
      · obtain rfl := List.mem_singleton.1 he
        rfl
    · rw [List.map_append]
      exact h.once.append (List.nodup_singleton _) (List.disjoint_singleton.2 hnew)
    · rw [List.map_append, List.mem_append, h.missing]
      show _ ∨ (x, y) ∈ [(a, b)] ↔ _
      rw [List.mem_singleton, Prod.mk.injEq, or_and_right]
      refine or_congr_right (and_iff_left_of_imp ?_).symm
      rintro ⟨rfl, rfl⟩
      exact hstart

end Joins

end Graph
end InstanceHierarchy
