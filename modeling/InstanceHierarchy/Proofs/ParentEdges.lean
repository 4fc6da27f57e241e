import InstanceHierarchy.Proofs.BatchOrder
import InstanceHierarchy.Proofs.Merging

/-!
# Which parent edges are added

Parent edges of the sources are repeated between their clones by one pass over the sources, while the
list of edges grows.  The pass adds each parent edge that is asked for and missing once, it reports
exactly what it adds, and it does nothing else.  The graph may be of any shape: a source may have
several parents and several clones, and clones several sources; edges may be doubled, lead back to
where they begin, or dangle.  Only the sources must not be nodes of the hierarchy themselves, for the
pass would then read edges that it has added before.
-/

namespace InstanceHierarchy
namespace Graph

variable {start g : Graph} {target : String} {asked asked' : Id → Id → Prop} {created : List Edge}

/-- Two clones for which a parent edge is asked: one leads from a selected source of the first to a
source of the second. -/
def Asks (g : Graph) (target : String) (selected : Id → Prop) (c p : Id) : Prop :=
  g.label? c = some target ∧ g.label? p = some target ∧
    ∃ s t, selected s ∧ g.Up s t ∧ g.Joined EdgeLabel.cloneOf c s ∧ g.Joined EdgeLabel.cloneOf p t

/-- The parent edges that were asked for and missing have been added, under ids drawn one after the
other, and nothing else has happened since the start. -/
structure Filled (start : Graph) (asked : Id → Id → Prop) (created : List Edge) (g : Graph) :
    Prop extends Joins start EdgeLabel.hasParent asked created g where
  nodes : g.nodes = start.nodes
  ids : created.map (·.id) =
    (List.range created.length).map fun n => start.supply.ident (start.supply.drawn + n)
  supply : g.supply = ⟨start.supply.ident, start.supply.drawn + created.length⟩

namespace Filled

theorem refl (start : Graph) : Filled start (fun _ _ => False) [] start :=
  ⟨.refl start EdgeLabel.hasParent, rfl, rfl, rfl⟩

theorem congr (h : Filled start asked created g) (heq : ∀ c p, asked c p ↔ asked' c p) :
    Filled start asked' created g :=
  { h with toJoins := h.toJoins.congr heq }

/-- One more pair is asked for. -/
theorem mergeEdge (h : Filled start asked created g) (a b : Id) :
    Filled start (fun c p => asked c p ∨ (c = a ∧ p = b))
      (created ++ (g.mergeEdge EdgeLabel.hasParent a b).1.toList)
      (g.mergeEdge EdgeLabel.hasParent a b).2 := by
  have hjoins := h.toJoins.mergeEdge a b
  by_cases hup : g.Up a b
  · rw [mergeEdge_of_joined hup] at hjoins ⊢
    refine ⟨hjoins, h.nodes, ?_, ?_⟩
    · simpa using h.ids
    · simpa using h.supply
  · rw [mergeEdge_of_unjoined hup] at hjoins ⊢
    refine ⟨hjoins, h.nodes, ?_, ?_⟩
    · rw [List.map_append, h.ids]
      show _ ++ [g.supply.ident g.supply.drawn] = (List.range (created ++ [_]).length).map _
      rw [List.length_append, List.length_singleton, List.range_succ, List.map_append, h.supply]
      rfl
    · show (⟨g.supply.ident, g.supply.drawn + 1⟩ : IdSupply) = _
      rw [h.supply, List.length_append]
      rfl

/-! ## The pass over the sources -/

theorem linkParents {state : List Edge × Graph} (h : Filled start asked state.1 state.2)
    (pairs : List (Id × Id)) :
    Filled start (fun c p => asked c p ∨ (c, p) ∈ pairs) (Graph.linkParents state pairs).1
      (Graph.linkParents state pairs).2 := by
  induction pairs generalizing state asked with
  | nil => exact h.congr (by simp)
  | cons pair rest ih =>
      have hone := @ih _ (_, _) (h.mergeEdge pair.1 pair.2)
      refine hone.congr fun c p => ?_
      rw [List.mem_cons, Prod.ext_iff, or_assoc]

/-- As long as only edges between nodes of the hierarchy were asked for, the sources outside of it
have not got any. -/
theorem moreParents (h : Filled start asked created g)
    (hasked : ∀ c p, asked c p → start.label? c = some target) : MoreParents target start g where
  nodes := h.nodes
  cloned _ _ := h.joined_of_ne (by decide)
  up _ _ hup := h.joined.2 (Or.inl hup)
  outside c p hup := (h.joined.1 hup).imp_right (hasked c p)

theorem relateFrom {state : List Edge × Graph} (h : Filled start asked state.1 state.2)
    (hasked : ∀ c p, asked c p → start.label? c = some target) {sources : List Id}
    (hsources : ∀ id ∈ sources, start.label? id ≠ some target) :
    Filled start (fun c p => asked c p ∨ ∃ s ∈ sources, (c, p) ∈ start.relatePairs target s)
      (Graph.relateFrom target sources state).1 (Graph.relateFrom target sources state).2 := by
  induction sources generalizing state asked with
  | nil => exact h.congr (by simp)
  | cons first rest ih =>
      have hmore := h.moreParents hasked
      have hone := (h.linkParents (state.2.relatePairs target first)).congr fun _ _ =>
        or_congr_right (hmore.mem_relatePairs (hsources first List.mem_cons_self))
      rw [relateFrom_cons]
      refine (ih hone ?_ fun id hid => hsources id (List.mem_cons_of_mem _ hid)).congr fun c p => ?_
      · rintro c p (hold | hpair)
        · exact hasked c p hold
        · obtain ⟨t, -, -, hc⟩ := mem_relatePairs.1 hpair
          exact (mem_clonesOf.1 hc).2
      · rw [List.exists_mem_cons_iff, or_assoc]

end Filled

/-- A pair is asked for by one of the sources. -/
theorem asks_iff {sources : List Id} {c p : Id} :
    (∃ s ∈ sources, (c, p) ∈ g.relatePairs target s) ↔ g.Asks target (· ∈ sources) c p := by
  unfold Asks
  simp only [mem_relatePairs, mem_clonesOf]
  constructor
  · rintro ⟨s, hs, t, hup, ⟨hpt, hp⟩, hcs, hc⟩
    exact ⟨hc, hp, s, t, hs, hup, hcs, hpt⟩
  · rintro ⟨hc, hp, s, t, hs, hup, hcs, hpt⟩
    exact ⟨s, hs, t, hup, ⟨hpt, hp⟩, hcs, hc⟩

theorem filled_relate {sources : List Id} (hsources : ∀ id ∈ sources, g.label? id ≠ some target) :
    Filled g (g.Asks target (· ∈ sources)) (g.relate sources target).1
      (g.relate sources target).2 := by
  have h : Filled g _ (relateFrom target sources ([], g)).1 (relateFrom target sources ([], g)).2 :=
    (Filled.refl g).relateFrom (by simp) hsources
  exact h.congr fun c p => by rw [false_or, asks_iff]

/-- What repeating the parent edges of selected sources has to come to: the missing edges are added,
those that were added are returned, and then the parent edges are the old ones and those that are
asked for. -/
def Mirrors (g : Graph) (target : String) (selected : Id → Prop)
    (result : Option (List Edge) × Graph) : Prop :=
  ∃ created, result.1 = some created ∧ Filled g (g.Asks target selected) created result.2 ∧
    ∀ c p, result.2.Up c p ↔ g.Up c p ∨ g.Asks target selected c p

theorem mirrors_relate {sources : List Id} {selected : Id → Prop}
    (hsources : ∀ id ∈ sources, g.label? id ≠ some target)
    (hselected : ∀ id, id ∈ sources ↔ selected id) :
    g.Mirrors target selected
      (some (g.relate sources target).1, (g.relate sources target).2) := by
  obtain rfl : (· ∈ sources) = selected := funext fun id => propext (hselected id)
  have h := filled_relate hsources
  exact ⟨_, rfl, h, fun _ _ => h.joined⟩

/-- Repeating the parent edges of a code list, or of some sources outside of the hierarchy, adds the
parent edges between clones that are asked for and missing, one for each pair, and nothing else; what
it adds is what it returns. -/
theorem mirroring_exact (g : Graph) (key : HierarchyKey) (codeList : Id) (ids : List Id)
    (hids : ∀ id ∈ ids, g.label? id ≠ some (NodeLabel.hierarchy key)) :
    g.Mirrors (NodeLabel.hierarchy key) (fun s => g.label? s = some (NodeLabel.generic codeList))
        (g.mutate (.relateList key codeList)) ∧
      g.Mirrors (NodeLabel.hierarchy key) (· ∈ ids) (g.mutate (.relateSources key ids)) := by
  refine ⟨mirrors_relate (fun id hid hlabel => ?_) fun id => mem_idsWithLabel,
    mirrors_relate hids fun id => Iff.rfl⟩
  rw [mem_idsWithLabel.1 hid] at hlabel
  exact hierarchy_ne_generic key codeList (Option.some.inj hlabel).symm

/-- A source with a doubled parent edge, an edge to itself and one that dangles; the clone of the
source is linked to the end of the dangling edge as well. -/
def tangle : Graph where
  nodes := Table.ofList
    [("a", ⟨NodeLabel.hierarchy ⟨"i", "x"⟩, .empty⟩), ("b", ⟨NodeLabel.hierarchy ⟨"i", "x"⟩, .empty⟩),
      ("s", ⟨NodeLabel.generic "list", .empty⟩), ("t", ⟨NodeLabel.generic "list", .empty⟩)]
  edges :=
    [⟨⟨"e", EdgeLabel.hasParent, "s", "t"⟩, .empty⟩, ⟨⟨"f", EdgeLabel.hasParent, "s", "t"⟩, .empty⟩,
      ⟨⟨"h", EdgeLabel.hasParent, "s", "s"⟩, .empty⟩, ⟨⟨"k", EdgeLabel.hasParent, "s", "z"⟩, .empty⟩,
      ⟨⟨"l", EdgeLabel.cloneOf, "a", "s"⟩, .empty⟩, ⟨⟨"m", EdgeLabel.cloneOf, "b", "t"⟩, .empty⟩,
      ⟨⟨"o", EdgeLabel.cloneOf, "a", "z"⟩, .empty⟩]
  supply := ⟨longerAndLonger 2, 0⟩

theorem mirroring_exact_tangle :
    (∀ id ∈ ["s", "z", "s"], tangle.label? id ≠ some (NodeLabel.hierarchy ⟨"i", "x"⟩)) ∧
      tangle.Mirrors (NodeLabel.hierarchy ⟨"i", "x"⟩)
        (fun s => tangle.label? s = some (NodeLabel.generic "list"))
        (tangle.mutate (.relateList ⟨"i", "x"⟩ "list")) ∧
      tangle.Mirrors (NodeLabel.hierarchy ⟨"i", "x"⟩) (· ∈ ["s", "z", "s"])
        (tangle.mutate (.relateSources ⟨"i", "x"⟩ ["s", "z", "s"])) := by
  have hids : ∀ id ∈ ["s", "z", "s"],
      tangle.label? id ≠ some (NodeLabel.hierarchy ⟨"i", "x"⟩) := by decide +kernel
  exact ⟨hids, mirroring_exact tangle ⟨"i", "x"⟩ "list" ["s", "z", "s"] hids⟩

/-- The clone of the source is put under the other clone and, for two reasons but once, under
itself. -/
example : (tangle.mutate (.relateSources ⟨"i", "x"⟩ ["s", "z", "s"])).1 =
    some [⟨"nn", EdgeLabel.hasParent, "a", "b"⟩, ⟨"nnn", EdgeLabel.hasParent, "a", "a"⟩] := by
  decide +kernel

end Graph
end InstanceHierarchy
