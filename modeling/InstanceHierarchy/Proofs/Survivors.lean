import InstanceHierarchy.Proofs.Additions
import InstanceHierarchy.Proofs.Integrity

/-!
# Who survives pruning

Pruning marks the nodes of a hierarchy that have data and all nodes above them, removes the nodes of
the hierarchy that are not marked, and takes the marks off again.  Here its outcome is told node by
node and edge by edge, for a graph that need not come from a build: codes may repeat or be missing,
parent edges may run in circles, and edges may dangle.

Two things are asked of the hierarchy.  Its parent edges stay inside of it, for a mark that is set
on a node elsewhere would not be taken off; and none of its nodes is marked already, for such a node
would stay whether it has data or not.
-/

namespace InstanceHierarchy
namespace Graph

open Relation

variable {g : Graph} {label : String} {key : HierarchyKey}

/-- The id names a node with the label that has data. -/
def HasData (g : Graph) (label : String) (id : Id) : Prop :=
  ∃ ps, g.nodes.get? id = some ⟨label, ps⟩ ∧ (ps.get? Property.hasData).bind Json.bool? = some true

/-- The id names a node with the label that has data, or that a chain of parent edges leads to from
one that has. -/
def Survives (g : Graph) (label : String) (id : Id) : Prop :=
  g.label? id = some label ∧ ∃ s, g.HasData label s ∧ ReflTransGen g.Up s id

/-- The id names any other node with the label. -/
def Perishes (g : Graph) (label : String) (id : Id) : Prop :=
  g.label? id = some label ∧ ¬ g.Survives label id

/-- No node with the label carries a mark, of whatever value. -/
def Unmarked (g : Graph) (label : String) : Prop :=
  ∀ id ps, g.nodes.get? id = some ⟨label, ps⟩ → ps.get? Property.remain = none

open Classical in
/-- A hierarchy has lost the nodes that were to perish, with the edges at them, and nothing else has
happened to the graph. -/
structure Pruned (g : Graph) (label : String) (g' : Graph) : Prop where
  nodes : ∀ id v, g'.nodes.get? id = some v ↔
    g.nodes.get? id = some v ∧ (v.label = label → g.Survives label id)
  edges : g'.edges = g.edges.filter fun e =>
    ¬ g.Perishes label e.source ∧ ¬ g.Perishes label e.target
  supply : g'.supply = g.supply
  /-- Every parent of a survivor survives, and is still its parent. -/
  parents : ∀ a b, g.Survives label a → g.Up a b → g.Survives label b ∧ g'.Up a b

/-! ## Marking -/

theorem HasData.labelled {id : Id} (h : g.HasData label id) : g.label? id = some label := by
  obtain ⟨ps, hps, -⟩ := h
  exact label_of_get? hps

theorem mem_idsWithFlag_hasData {id : Id} :
    id ∈ g.idsWithFlag label Property.hasData ↔ g.HasData label id := mem_idsWithFlag_iff

/-- The parents of a survivor survive. -/
theorem Survives.up (hclosed : g.Closed label) {a b : Id} (h : g.Survives label a)
    (hup : g.Up a b) : g.Survives label b := by
  obtain ⟨ha, s, hs, hchain⟩ := h
  exact ⟨hclosed a b hup ha, s, hs, hchain.tail hup⟩

/-- The nodes that are marked: what has data comes first, and then the search along the parent
edges, which finds it only where the edges run in a circle. -/
def markedIds (g : Graph) (label : String) : List Id :=
  g.idsWithFlag label Property.hasData ++ g.ancestors (g.idsWithFlag label Property.hasData)

theorem mem_markedIds (hclosed : g.Closed label) {id : Id} :
    id ∈ g.markedIds label ↔ g.Survives label id := by
  unfold markedIds
  rw [List.mem_append, mem_ancestors]
  constructor
  · rintro (hmem | ⟨s, hmem, hchain⟩)
    · have hdata := mem_idsWithFlag_hasData.1 hmem
      exact ⟨hdata.labelled, id, hdata, .refl⟩
    · have hdata := mem_idsWithFlag_hasData.1 hmem
      exact ⟨hclosed.chain hdata.labelled hchain.to_reflTransGen, s, hdata, hchain.to_reflTransGen⟩
  · rintro ⟨-, s, hdata, hchain⟩
    have hmem := mem_idsWithFlag_hasData.2 hdata
    rcases reflTransGen_iff_eq_or_transGen.1 hchain with rfl | hchain
    · exact Or.inl hmem
    · exact Or.inr ⟨s, hmem, hchain⟩

/-- Marking sets the mark of every survivor and changes nothing else. -/
theorem rewrites_markRemaining (g : Graph) (key : HierarchyKey) :
    Rewrites g (g.mutate (.markRemaining key)).2 fun id ps =>
      if id ∈ g.markedIds (NodeLabel.hierarchy key) then ps.insert Property.remain (.bool true)
      else ps :=
  setProperties_rewrites g _ _ (by decide)

/-- The nodes that have no mark after the marking are those that are to perish. -/
theorem mem_unmarkedIds_markRemaining (hclosed : g.Closed (NodeLabel.hierarchy key))
    (hunmarked : g.Unmarked (NodeLabel.hierarchy key)) {id : Id} :
    id ∈ (g.mutate (.markRemaining key)).2.unmarkedIds (NodeLabel.hierarchy key) ↔
      g.Perishes (NodeLabel.hierarchy key) id := by
  have hrw := g.rewrites_markRemaining key
  rw [mem_unmarkedIds]
  constructor
  · rintro ⟨ps', hps', hmark⟩
    obtain ⟨ps, hps, rfl⟩ := hrw.get?_iff.1 hps'
    refine ⟨label_of_get? hps, fun hsurvives => hmark ?_⟩
    rw [if_pos ((mem_markedIds hclosed).2 hsurvives)]
    exact Picture.isMarked_insert ps
  · rintro ⟨hlabel, hperishes⟩
    obtain ⟨ps, hps⟩ := label?_eq_some_iff.1 hlabel
    refine ⟨ps, hrw.get?_iff.2 ⟨ps, hps, ?_⟩, ?_⟩
    · rw [if_neg fun hmem => hperishes ((mem_markedIds hclosed).1 hmem)]
    · unfold Picture.isMarked
      rw [hunmarked id ps hps]
      simp

/-! ## Removing and clearing -/

/-- The graph while the marks are still on. -/
def pruneMarked (g : Graph) (key : HierarchyKey) : Graph :=
  ((g.mutate (.markRemaining key)).2.mutate (.dropUnmarked key)).2

theorem get?_pruneMarked (hclosed : g.Closed (NodeLabel.hierarchy key))
    (hunmarked : g.Unmarked (NodeLabel.hierarchy key)) {id : Id} {l : String} {ps' : Properties} :
    (g.pruneMarked key).nodes.get? id = some ⟨l, ps'⟩ ↔
      ∃ ps, g.nodes.get? id = some ⟨l, ps⟩ ∧ ¬ g.Perishes (NodeLabel.hierarchy key) id ∧
        ps' = if id ∈ g.markedIds (NodeLabel.hierarchy key) then
          ps.insert Property.remain (.bool true) else ps := by
  show (((g.mutate (.markRemaining key)).2.unmarkedIds _).foldl removeNode _).nodes.get? id = _ ↔ _
  rw [get?_removeNodes_iff, mem_unmarkedIds_markRemaining hclosed hunmarked,
    (g.rewrites_markRemaining key).get?_iff]
  constructor
  · rintro ⟨⟨ps, hps, rfl⟩, hstays⟩
    exact ⟨ps, hps, hstays, rfl⟩
  · rintro ⟨ps, hps, hstays, rfl⟩
    exact ⟨⟨ps, hps, rfl⟩, hstays⟩

open Classical in
/-- Edges are removed with the nodes only. -/
theorem edges_pruneMarked (hclosed : g.Closed (NodeLabel.hierarchy key))
    (hunmarked : g.Unmarked (NodeLabel.hierarchy key)) :
    (g.pruneMarked key).edges = g.edges.filter fun e =>
      ¬ g.Perishes (NodeLabel.hierarchy key) e.source ∧
        ¬ g.Perishes (NodeLabel.hierarchy key) e.target := by
  show (((g.mutate (.markRemaining key)).2.unmarkedIds _).foldl removeNode _).edges = _
  rw [edges_removeNodes, (g.rewrites_markRemaining key).edges]
  refine List.filter_congr fun e _ => ?_
  rw [decide_eq_decide, mem_unmarkedIds_markRemaining hclosed hunmarked,
    mem_unmarkedIds_markRemaining hclosed hunmarked]

theorem supply_pruneMarked (g : Graph) (key : HierarchyKey) :
    (g.pruneMarked key).supply = g.supply :=
  (supply_removeNodes _ _).trans (g.rewrites_markRemaining key).supply

theorem rewrites_clearMarks (g : Graph) (key : HierarchyKey) :
    Rewrites g (g.mutate (.clearMarks key)).2 fun id ps =>
      if id ∈ g.idsWithLabel (NodeLabel.hierarchy key) then ps.erase Property.remain else ps :=
  dropProperties_rewrites g _ (by decide)

/-- Taking the mark off a node of the hierarchy gives it the properties that it had, and a node
elsewhere was not marked. -/
theorem unmark_mark (hclosed : g.Closed label) (hunmarked : g.Unmarked label) {id : Id} {l : String}
    {ps marked : Properties} (hps : g.nodes.get? id = some ⟨l, ps⟩)
    (hmarked : marked =
      if id ∈ g.markedIds label then ps.insert Property.remain (.bool true) else ps) :
    (if l = label then marked.erase Property.remain else marked) = ps := by
  subst hmarked
  by_cases hl : l = label
  · subst hl
    rw [if_pos rfl]
    split
    · rw [Table.erase_insert_self, Table.erase_eq_self (hunmarked id ps hps)]
    · exact Table.erase_eq_self (hunmarked id ps hps)
  · have hother : id ∉ g.markedIds label := by
      intro hmem
      have hlabel := ((mem_markedIds hclosed).1 hmem).1
      rw [label_of_get? hps] at hlabel
      exact hl (Option.some.inj hlabel)
    rw [if_neg hl, if_neg hother]

/-- The marks are taken off where they were set. -/
theorem get?_pruned (hclosed : g.Closed (NodeLabel.hierarchy key))
    (hunmarked : g.Unmarked (NodeLabel.hierarchy key)) (id : Id) (v : Vertex) :
    ((g.pruneMarked key).mutate (.clearMarks key)).2.nodes.get? id = some v ↔
      g.nodes.get? id = some v ∧
        (v.label = NodeLabel.hierarchy key → g.Survives (NodeLabel.hierarchy key) id) := by
  have hcleared : ∀ {l ps}, (g.pruneMarked key).nodes.get? id = some ⟨l, ps⟩ →
      (id ∈ (g.pruneMarked key).idsWithLabel (NodeLabel.hierarchy key) ↔
        l = NodeLabel.hierarchy key) := by
    intro l ps hps
    rw [mem_idsWithLabel, label_of_get? hps, Option.some_inj]
  obtain ⟨l, ps⟩ := v
  rw [((g.pruneMarked key).rewrites_clearMarks key).get?_iff]
  constructor
  · rintro ⟨marked, hmarked, rfl⟩
    obtain ⟨qs, hqs, hstays, hset⟩ := (get?_pruneMarked hclosed hunmarked).1 hmarked
    rw [if_congr (hcleared hmarked) rfl rfl, unmark_mark hclosed hunmarked hqs hset]
    refine ⟨hqs, fun hl => ?_⟩
    by_contra hnot
    exact hstays ⟨hl ▸ label_of_get? hqs, hnot⟩
  · rintro ⟨hps, hsurvives⟩
    have hstays : ¬ g.Perishes (NodeLabel.hierarchy key) id := by
      rintro ⟨hlabel, hnot⟩
      rw [label_of_get? hps] at hlabel
      exact hnot (hsurvives (Option.some.inj hlabel))
    have hmarked := (get?_pruneMarked hclosed hunmarked).2 ⟨ps, hps, hstays, rfl⟩
    refine ⟨_, hmarked, ?_⟩
    rw [if_congr (hcleared hmarked) rfl rfl, unmark_mark hclosed hunmarked hps rfl]

open Classical in
/-- Of a hierarchy that keeps to itself and has no marks yet, pruning leaves the nodes that have
data and the nodes above them, as they are, and does nothing else. -/
theorem pruning_exact (g : Graph) (key : HierarchyKey)
    (hclosed : g.Closed (NodeLabel.hierarchy key))
    (hunmarked : g.Unmarked (NodeLabel.hierarchy key)) :
    g.Pruned (NodeLabel.hierarchy key)
      (g.mutateAll [.markRemaining key, .dropUnmarked key, .clearMarks key]) := by
  show g.Pruned _ ((g.pruneMarked key).mutate (.clearMarks key)).2
  have hclear := (g.pruneMarked key).rewrites_clearMarks key
  have hedges := hclear.edges.trans (edges_pruneMarked hclosed hunmarked)
  refine ⟨get?_pruned hclosed hunmarked, hedges, hclear.supply.trans (g.supply_pruneMarked key),
    fun a b ha hup => ?_⟩
  have hb := ha.up hclosed hup
  obtain ⟨e, he, hl, rfl, rfl⟩ := joined_iff.1 hup
  -- neither end of the edge perishes, so it is kept
  refine ⟨hb, joined_iff.2 ⟨e, hedges ▸ List.mem_filter.2 ⟨he, ?_⟩, hl, rfl, rfl⟩⟩
  exact decide_eq_true ⟨fun h => h.2 ha, fun h => h.2 hb⟩

theorem Unmarked.of_entries
    (h : ∀ e ∈ g.nodes.entries, e.2.label = label → e.2.properties.get? Property.remain = none) :
    g.Unmarked label :=
  fun _ _ hps => h _ (Table.get?_eq_some_iff.1 hps) rfl

/-- Two parents of each other, of which one has a child with data and the other one without; and a
marked node elsewhere that has lost its parent. -/
def circle : Graph where
  nodes := Table.ofList
    [("a", ⟨NodeLabel.hierarchy ⟨"i", "x"⟩, Table.ofList [(Property.hasData, .bool false)]⟩),
      ("b", ⟨NodeLabel.hierarchy ⟨"i", "x"⟩, .empty⟩),
      ("c", ⟨NodeLabel.hierarchy ⟨"i", "x"⟩, Table.ofList [(Property.hasData, .bool true)]⟩),
      ("d", ⟨NodeLabel.hierarchy ⟨"i", "x"⟩, Table.ofList [(Property.hasData, .str "true")]⟩),
      ("s", ⟨NodeLabel.generic "list", Table.ofList [(Property.remain, .bool true)]⟩)]
  edges :=
    [⟨⟨"e", EdgeLabel.hasParent, "a", "b"⟩, .empty⟩, ⟨⟨"f", EdgeLabel.hasParent, "b", "a"⟩, .empty⟩,
      ⟨⟨"h", EdgeLabel.hasParent, "c", "a"⟩, .empty⟩, ⟨⟨"k", EdgeLabel.hasParent, "d", "b"⟩, .empty⟩,
      ⟨⟨"l", EdgeLabel.cloneOf, "d", "s"⟩, .empty⟩, ⟨⟨"m", EdgeLabel.hasParent, "s", "z"⟩, .empty⟩]
  supply := ⟨longerAndLonger 2, 0⟩

theorem pruning_exact_circle :
    circle.Closed (NodeLabel.hierarchy ⟨"i", "x"⟩) ∧
      circle.Unmarked (NodeLabel.hierarchy ⟨"i", "x"⟩) ∧
      circle.Pruned (NodeLabel.hierarchy ⟨"i", "x"⟩)
        (circle.mutateAll [.markRemaining ⟨"i", "x"⟩, .dropUnmarked ⟨"i", "x"⟩,
          .clearMarks ⟨"i", "x"⟩]) := by
  have hclosed : circle.Closed (NodeLabel.hierarchy ⟨"i", "x"⟩) := .of_edges (by decide +kernel)
  have hunmarked : circle.Unmarked (NodeLabel.hierarchy ⟨"i", "x"⟩) :=
    .of_entries (by decide +kernel)
  exact ⟨hclosed, hunmarked, pruning_exact circle ⟨"i", "x"⟩ hclosed hunmarked⟩

/-- Of the circle only the child without data goes. -/
example : (circle.mutateAll [.markRemaining ⟨"i", "x"⟩, .dropUnmarked ⟨"i", "x"⟩,
    .clearMarks ⟨"i", "x"⟩]).nodes.keys = ["a", "b", "c", "s"] := by decide +kernel

end Graph
end InstanceHierarchy
