import InstanceHierarchy.Proofs.BulkOutcome
import InstanceHierarchy.Proofs.Changes

/-!
# Graphs that hold together

A good graph has no dangling and no repeated edges, and no two nodes of one hierarchy share a code.
Every mutation keeps a graph good, whatever its arguments are: ids that name nothing, ids named
twice, clones as sources of clones, keys and code lists that do not belong together.  All that is
asked of the graph besides is that the ids which it will draw are new.

Mutations are made of five kinds of change, and each kind keeps a graph good for a reason of its
own.
-/

namespace InstanceHierarchy
namespace Graph

/-- A graph that holds together. -/
structure Good (g : Graph) : Prop where
  /-- Every node is stored under its own id.  No graph is otherwise, for the id of a node is the key
  of its entry. -/
  stored : ∀ n ∈ g.nodeList, g.node? n.id = some n
  /-- Both ends of every edge are stored. -/
  ends : ∀ e ∈ g.edges, g.nodes.contains e.source ∧ g.nodes.contains e.target
  /-- No two edges agree on label, source and target. -/
  once : ∀ label a b, g.tally label a b ≤ 1
  /-- No two nodes of a hierarchy carry the same code. -/
  unique : ∀ key code a b, g.Coded (NodeLabel.hierarchy key) code a →
    g.Coded (NodeLabel.hierarchy key) code b → a = b

/-- A good graph whose supply holds new ids only. -/
structure Intact (g : Graph) : Prop extends Good g where
  fresh : g.Fresh

/-- Carry out mutations one after another. -/
def mutateAll (g : Graph) (ms : List Mutation) : Graph := ms.foldl (fun g m => (g.mutate m).2) g

theorem node?_of_mem_nodeList {g : Graph} {n : Node} (h : n ∈ g.nodeList) :
    g.node? n.id = some n :=
  node?_eq_some.2 ⟨rfl, mem_nodeList.1 h⟩

/-- An id that is at the end of an edge is that of a stored node. -/
theorem Good.joined {g : Graph} (h : g.Good) {label : String} {a b : Id}
    (hj : g.Joined label a b) : g.nodes.contains a ∧ g.nodes.contains b := by
  obtain ⟨e, he, -, rfl, rfl⟩ := joined_iff.1 hj
  exact h.ends e he

/-- Distinct edges and distinct codes make a graph good that has no dangling edges. -/
theorem Good.of_nodup {g : Graph}
    (hends : ∀ e ∈ g.edges, g.nodes.contains e.source ∧ g.nodes.contains e.target)
    (hedges : (g.edges.map fun e => (e.label, e.source, e.target)).Nodup)
    (hcodes : (g.nodeList.map fun n => (n.label, n.text? Property.code)).Nodup) : g.Good := by
  refine ⟨fun n => node?_of_mem_nodeList, hends, fun label a b => ?_, fun key code a b ha hb => ?_⟩
  · have hcount : g.tally label a b =
        (g.edges.map fun e => (e.label, e.source, e.target)).count (label, a, b) := by
      unfold tally
      rw [List.count, List.countP_map]
      apply List.countP_congr
      intro e _
      simp
    rw [hcount]
    exact List.nodup_iff_count_le_one.1 hedges _
  · obtain ⟨ps, hps, hc⟩ := ha
    obtain ⟨qs, hqs, hd⟩ := hb
    have hn : (⟨a, NodeLabel.hierarchy key, ps⟩ : Node) ∈ g.nodeList := mem_nodeList.2 hps
    have hm : (⟨b, NodeLabel.hierarchy key, qs⟩ : Node) ∈ g.nodeList := mem_nodeList.2 hqs
    have heq := List.inj_on_of_nodup_map hcodes hn hm (Prod.ext rfl (hc.trans hd.symm))
    exact congrArg Node.id heq

namespace Intact

variable {g g' : Graph}

/-! ## Five kinds of change -/

/-- No property that is rewritten is a code, and no edge is touched. -/
theorem rewrites {F : Id → Properties → Properties} (h : g.Intact) (hrw : Rewrites g g' F) :
    g'.Good := by
  refine ⟨fun n => node?_of_mem_nodeList, ?_, ?_, ?_⟩
  · intro e he
    rw [hrw.edges] at he
    obtain ⟨hs, ht⟩ := h.ends e he
    have hkeep : ∀ id, g.nodes.contains id → g'.nodes.contains id := by
      intro id hid
      obtain ⟨v, hv⟩ := Table.contains_iff.1 hid
      exact Table.contains_iff.2 ⟨_, by rw [hrw.nodes, hv]; rfl⟩
    exact ⟨hkeep _ hs, hkeep _ ht⟩
  · intro label a b
    rw [hrw.tally]
    exact h.once label a b
  · intro key code a b ha hb
    exact h.unique key code a b (hrw.coded.1 ha) (hrw.coded.1 hb)

/-- An edge is merged between stored nodes, so it does not dangle, and it is new or left out. -/
theorem mergeEdge (h : g.Intact) (l : String) {s t : Id} (hs : g.nodes.contains s)
    (ht : g.nodes.contains t) : (g.mergeEdge l s t).2.Good := by
  refine ⟨fun n => node?_of_mem_nodeList, ?_, ?_, ?_⟩
  · intro e he
    rw [nodes_mergeEdge]
    rcases joined_mergeEdge.1 (joined_iff.2 ⟨e, he, rfl, rfl, rfl⟩) with hj | ⟨-, hes, het⟩
    · exact h.toGood.joined hj
    · exact ⟨hes ▸ hs, het ▸ ht⟩
  · intro label a b
    have hone := h.once label a b
    rw [tally_mergeEdge]
    split <;> omega
  · intro key code a b ha hb
    exact h.unique key code a b (coded_mergeEdge.1 ha) (coded_mergeEdge.1 hb)

/-- A node is added under an id that no edge has as an end, with a code that no node of its label
has. -/
theorem addVertex (h : g.Intact) {v : Vertex} {c : String} (hc : codeIn v.properties = some c)
    (hnew : ∀ a, ¬ g.Coded v.label c a) : (g.addVertex v).2.Good := by
  refine ⟨fun n => node?_of_mem_nodeList, ?_, h.once, ?_⟩
  · intro e he
    obtain ⟨hs, ht⟩ := h.ends e he
    exact ⟨contains_addVertex hs, contains_addVertex ht⟩
  · intro key code a b ha hb
    -- of two nodes with the code, either both are old or both are the new one
    rcases (coded_addVertex h.fresh).1 ha with ha | ⟨hax, hl, hda⟩
    · rcases (coded_addVertex h.fresh).1 hb with hb | ⟨-, hl, hdb⟩
      · exact h.unique key code a b ha hb
      · rw [hc] at hdb
        cases hdb
        exact absurd (hl ▸ ha) (hnew a)
    · rcases (coded_addVertex h.fresh).1 hb with hb | ⟨hbx, -, -⟩
      · rw [hc] at hda
        cases hda
        exact absurd (hl ▸ hb) (hnew b)
      · exact hax.symm.trans hbx

/-- Nodes are removed together with all edges at them. -/
theorem removeNodes (h : g.Intact) (ids : List Id) : (ids.foldl removeNode g).Good := by
  refine ⟨fun n => node?_of_mem_nodeList, ?_, ?_, ?_⟩
  · intro e he
    obtain ⟨hj, hs, ht⟩ := joined_removeNodes.1 (joined_iff.2 ⟨e, he, rfl, rfl, rfl⟩)
    obtain ⟨hcs, hct⟩ := h.toGood.joined hj
    obtain ⟨v, hv⟩ := Table.contains_iff.1 hcs
    obtain ⟨w, hw⟩ := Table.contains_iff.1 hct
    exact ⟨Table.contains_iff.2 ⟨v, get?_removeNodes_iff.2 ⟨hv, hs⟩⟩,
      Table.contains_iff.2 ⟨w, get?_removeNodes_iff.2 ⟨hw, ht⟩⟩⟩
  · intro label a b
    have hone := h.once label a b
    rw [tally_removeNodes]
    split <;> omega
  · intro key code a b ha hb
    exact h.unique key code a b (coded_removeNodes_iff.1 ha).1 (coded_removeNodes_iff.1 hb).1

/-- Dropping edges leaves fewer of them. -/
theorem dropEdges (h : g.Intact) (l : String) (test : StoredEdge → Bool) :
    (g.dropEdges l test).Good := by
  have hsub : (g.dropEdges l test).edges.Sublist g.edges := List.filter_sublist
  refine ⟨h.stored, ?_, ?_, h.unique⟩
  · intro e he
    exact h.ends e (hsub.subset he)
  · intro label a b
    exact Nat.le_trans hsub.countP_le (h.once label a b)

/-- A change of whatever kind. -/
theorem change {own : String → Prop} (h : g.Intact) (hchange : Change own g g') : g'.Intact := by
  refine ⟨?_, hchange.fresh h.fresh⟩
  cases hchange with
  | rewrite hrw => exact h.rewrites hrw
  | mergeEdge l hs ht => exact h.mergeEdge l hs ht
  | addVertex _ hc hnew => exact h.addVertex hc hnew
  | removeNodes => exact h.removeNodes _
  | dropLinks test => exact h.dropEdges EdgeLabel.cloneOf test

/-- One mutation, for whatever hierarchy. -/
theorem mutate (h : g.Intact) (m : Mutation) : (g.mutate m).2.Intact :=
  (changes_mutate g m (worksFor_any m)).kept (fun _ _ hchange hg => hg.change hchange) h

end Intact

/-- Whatever mutations a good graph goes through, with whatever arguments, it stays good. -/
theorem good_mutateAll (g : Graph) (ms : List Mutation) (hgood : g.Good) (hfresh : g.Fresh) :
    (g.mutateAll ms).Good :=
  have hintact : (g.mutateAll ms).Intact :=
    List.foldlRecOn ms _ ⟨hgood, hfresh⟩ fun _ hg m _ => hg.mutate m
  hintact.toGood

/-- Sources that are named twice, that are not there or that are clones themselves, of a code list
that is not theirs, between mutations of another hierarchy. -/
theorem good_mutateAll_twoCodes : (twoCodes.mutateAll
    [.cloneSources ⟨"i", "x"⟩ "other" ["b", "a", "b", "nowhere", "x"] true,
      .relateSources ⟨"i", "x"⟩ ["b"], .cloneSources ⟨"i", "y"⟩ "list" ["nn", "a"] false,
      .linkCode "list" "nn" "all", .markRemaining ⟨"i", "x"⟩, .dropUnmarked ⟨"i", "y"⟩,
      .unlinkSources ["a", "nn"]]).Good :=
  good_mutateAll twoCodes _
    (.of_nodup (by decide +kernel) (by decide +kernel) (by decide +kernel)) twoCodes_fresh

end Graph
end InstanceHierarchy
