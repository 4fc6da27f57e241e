import InstanceHierarchy.Proofs.CodeLists
import Mathlib.Data.List.Sort

/-!
# The children of the nodes with a code

Several nodes of a hierarchy may carry one code.  A child may point at some of them, or at one of
them more than once, and edges may come from ids that name no node or a node outside of the
hierarchy.  The query lists every child once.  It collects the children by ascending ids and then
sorts them by place and title; as the sorting is stable, children that agree in both stay in the
order of their ids.  So no two children share a rank, and the answer is told by the stored nodes
and by which of them are linked, not by the order or the number of the edges.

Nothing is asked of the graph, nor of the properties of its nodes.
-/

namespace InstanceHierarchy

/-- Where a child stands among the others: by its place, without a place last, then by its title,
without a title first, and then by its id. -/
def childRank (n : Node) : (WithTop Int ×ₗ String) ×ₗ Id :=
  toLex (rank (n.int64? Property.order) ((n.text? Property.label).getD ""), n.id)

/-- A child comes no later than another one by place and title. -/
def childLe (n m : Node) : Bool :=
  placeLe (n.int64? Property.order, (n.text? Property.label).getD "")
    (m.int64? Property.order, (m.text? Property.label).getD "")

theorem childLe_trans (a b c : Node) (hab : childLe a b) (hbc : childLe b c) : childLe a c :=
  placeLe_iff.2 ((placeLe_iff.1 hab).trans (placeLe_iff.1 hbc))

theorem childLe_total (a b : Node) : childLe a b || childLe b a := by
  rw [Bool.or_eq_true]
  exact (le_total (rank _ _) (rank _ _)).imp placeLe_iff.2 placeLe_iff.2

/-- Where the order by place and title does not decide, the id does. -/
theorem childRank_lt {n m : Node} (hle : childLe n m) (hid : childLe m n → n.id < m.id) :
    childRank n < childRank m := by
  unfold childRank
  rw [Prod.Lex.toLex_lt_toLex]
  by_cases hge : childLe m n = true
  · exact Or.inr ⟨le_antisymm (placeLe_iff.1 hle) (placeLe_iff.1 hge), hid hge⟩
  · exact Or.inl (lt_of_not_ge fun h => hge (placeLe_iff.2 h))

/-- Sorting is stable: of two items that are no later than each other, the one that came first still
comes first. -/
theorem pairwise_mergeSort_stable {α : Type} {le : α → α → Bool} {r : α → α → Prop}
    (trans : ∀ a b c, le a b → le b c → le a c) (total : ∀ a b, le a b || le b a) {xs : List α}
    (h : xs.Pairwise r) : (xs.mergeSort le).Pairwise fun a b => le b a → r a b := by
  induction xs with
  | nil => simp
  | cons x rest ih =>
      obtain ⟨hx, hrest⟩ := List.pairwise_cons.1 h
      -- the first item is put in front of the items that it is no later than
      obtain ⟨before, after, hsorted, hothers, hbefore⟩ := List.mergeSort_cons trans total x rest
      have hpairs := ih hrest
      rw [hothers, List.pairwise_append] at hpairs
      obtain ⟨hpairsBefore, hpairsAfter, hcross⟩ := hpairs
      rw [hsorted, List.pairwise_append, List.pairwise_cons]
      refine ⟨hpairsBefore, ⟨fun b hb _ => ?_, hpairsAfter⟩, fun a ha b hb hle => ?_⟩
      · have hmem : b ∈ rest.mergeSort le := hothers ▸ List.mem_append_right before hb
        exact hx b (List.mem_mergeSort.1 hmem)
      · rcases List.mem_cons.1 hb with rfl | hb
        · have hnot := hbefore a ha
          simp [hle] at hnot
        · exact hcross a ha b hb hle

namespace Graph

/-- A node is a child, within a label, of a node that carries a code. -/
structure ChildOf (g : Graph) (label code : String) (n : Node) : Prop where
  stored : g.node? n.id = some n
  labelled : n.label = label
  parent : ∃ p, g.Coded label code p ∧ g.Up n.id p

variable {g : Graph} {label code : String}

theorem mem_records {ids : List Id} {n : Node} :
    n ∈ g.records ids ↔ n.id ∈ ids ∧ g.node? n.id = some n := by
  unfold records
  rw [List.mem_filterMap]
  constructor
  · rintro ⟨id, hid, hn⟩
    obtain ⟨rfl, -⟩ := node?_eq_some.1 hn
    exact ⟨hid, hn⟩
  · rintro ⟨hid, hn⟩
    exact ⟨n.id, hid, hn⟩

/-- Nodes are found in the order of the ids. -/
theorem pairwise_records {ids : List Id} (h : ids.Pairwise (· < ·)) :
    (g.records ids).Pairwise fun n m => n.id < m.id := by
  refine h.filterMap _ fun a b hlt n hn m hm => ?_
  rw [(node?_eq_some.1 hn).1, (node?_eq_some.1 hm).1]
  exact hlt

/-- Stored nodes are found again by their ids. -/
theorem records_map_id {ns : List Node} (h : ∀ n ∈ ns, g.node? n.id = some n) :
    g.records (ns.map (·.id)) = ns := by
  have hall : ns.filterMap (g.node? ∘ (·.id)) = ns.filterMap some := List.filterMap_congr h
  rw [records, List.filterMap_map, hall, List.filterMap_some]

/-- The children before they are sorted. -/
def childrenById (g : Graph) (label code : String) : List Node :=
  (g.records (TextSet.ofList ((g.idsWithCode label code).flatMap fun parent =>
    g.sources parent EdgeLabel.hasParent)).toList).filter fun n => n.label = label

theorem childrenOf_eq (g : Graph) (label code : String) :
    g.childrenOf label code = (g.childrenById label code).mergeSort childLe := rfl

theorem mem_childrenById {n : Node} :
    n ∈ g.childrenById label code ↔ g.ChildOf label code n := by
  have hparent : (∃ p ∈ g.idsWithCode label code, n.id ∈ g.sources p EdgeLabel.hasParent) ↔
      ∃ p, g.Coded label code p ∧ g.Up n.id p := by
    simp only [mem_idsWithCode, mem_sources]
  unfold childrenById
  rw [List.mem_filter, mem_records, TextSet.mem_ofList, List.mem_flatMap, hparent,
    decide_eq_true_eq]
  constructor
  · rintro ⟨⟨hp, hn⟩, hl⟩
    exact ⟨hn, hl, hp⟩
  · rintro ⟨hn, hl, hp⟩
    exact ⟨⟨hp, hn⟩, hl⟩

theorem mem_childrenOf {n : Node} : n ∈ g.childrenOf label code ↔ g.ChildOf label code n := by
  rw [childrenOf_eq, List.mem_mergeSort, mem_childrenById]

/-- The children ascend by their ranks. -/
theorem pairwise_childrenOf (g : Graph) (label code : String) :
    (g.childrenOf label code).Pairwise fun n m => childRank n < childRank m := by
  have hids : (g.childrenById label code).Pairwise fun n m => n.id < m.id :=
    (pairwise_records (List.pairwise_map.2 (Table.ordered _))).sublist List.filter_sublist
  have hsorted := List.pairwise_mergeSort childLe_trans childLe_total (g.childrenById label code)
  have hstable := pairwise_mergeSort_stable childLe_trans childLe_total hids
  rw [childrenOf_eq]
  exact (hsorted.and hstable).imp fun ⟨hle, hid⟩ => childRank_lt hle hid

/-- There is only one list of the same nodes that ascends by their ranks. -/
theorem eq_of_pairwise_childRank {ns ms : List Node} (hmem : ∀ n, n ∈ ns ↔ n ∈ ms)
    (hns : ns.Pairwise fun n m => childRank n < childRank m)
    (hms : ms.Pairwise fun n m => childRank n < childRank m) : ns = ms := by
  have : Std.Irrefl fun n m : Node => childRank n < childRank m := ⟨fun _ => lt_irrefl _⟩
  have : Std.Antisymm fun n m : Node => childRank n < childRank m :=
    ⟨fun _ _ h h' => absurd h' h.not_gt⟩
  exact List.Pairwise.eq_of_mem_iff hns hms hmem

/-- Who is whose child is told by the nodes and by which of them are linked. -/
theorem childOf_congr {g' : Graph} (hnodes : g'.nodes = g.nodes)
    (hup : ∀ a b, g'.Up a b ↔ g.Up a b) (n : Node) :
    g'.ChildOf label code n ↔ g.ChildOf label code n := by
  have hnode : g'.node? n.id = g.node? n.id := by
    unfold node?
    rw [hnodes]
  have hcoded : ∀ p, g'.Coded label code p ↔ g.Coded label code p := fun p => by
    unfold Coded
    rw [hnodes]
  constructor
  · rintro ⟨hn, hl, p, hp, hlink⟩
    exact ⟨hnode ▸ hn, hl, p, (hcoded p).1 hp, (hup _ _).1 hlink⟩
  · rintro ⟨hn, hl, p, hp, hlink⟩
    exact ⟨hnode ▸ hn, hl, p, (hcoded p).2 hp, (hup _ _).2 hlink⟩

theorem call_children (g : Graph) (key : HierarchyKey) (code text : String) :
    g.call .nodes ⟨.query (.children key code), text⟩ =
      (.ok (g.childrenOf (NodeLabel.hierarchy key) code), g) :=
  call_query rfl text

/-- The children of the nodes of a hierarchy that carry a code are listed once each, and in the
order of their ranks.  A graph with the same nodes and the same parent edges, whatever their order
and however often they are repeated, gives the same list. -/
theorem children_by_rank (g : Graph) (key : HierarchyKey) (code text : String) :
    ∃ children : List Node,
      g.call .nodes ⟨.query (.children key code), text⟩ = (.ok children, g) ∧
      (∀ n, n ∈ children ↔ g.ChildOf (NodeLabel.hierarchy key) code n) ∧
      (children.map (·.id)).Nodup ∧
      children.Pairwise (fun n m => childRank n < childRank m) ∧
      ∀ g' : Graph, g'.nodes = g.nodes → g'.parentPairs ⊆ g.parentPairs →
        g.parentPairs ⊆ g'.parentPairs →
        g'.call .nodes ⟨.query (.children key code), text⟩ = (.ok children, g') := by
  have hranked := pairwise_childrenOf g (NodeLabel.hierarchy key) code
  refine ⟨g.childrenOf (NodeLabel.hierarchy key) code, call_children g key code text,
    fun n => mem_childrenOf, ?_, hranked, fun g' hnodes hsub hsuper => ?_⟩
  · -- nodes with one id are one node
    refine List.pairwise_map.2 (hranked.imp_of_mem fun hn hm hlt hid => ?_)
    have hsame := (mem_childrenOf.1 hn).stored
    rw [hid, (mem_childrenOf.1 hm).stored] at hsame
    exact hlt.ne (congrArg childRank (Option.some.inj hsame).symm)
  · have hup : ∀ a b, g'.Up a b ↔ g.Up a b := fun a b => by
      rw [← leads_parentPairs, ← leads_parentPairs]
      exact ⟨fun h => hsub h, fun h => hsuper h⟩
    have hsame : g'.childrenOf (NodeLabel.hierarchy key) code =
        g.childrenOf (NodeLabel.hierarchy key) code :=
      eq_of_pairwise_childRank
        (fun n => mem_childrenOf.trans ((childOf_congr hnodes hup n).trans mem_childrenOf.symm))
        (pairwise_childrenOf g' _ code) hranked
    rw [call_children, hsame]

/-- Two nodes with one code, and children of them: with a place, without one, with a title and with
none.  One child has two parents, another one belongs elsewhere, and one edge comes from no node. -/
def twoParents : Graph where
  nodes := Table.ofList
    [("p", ⟨"_hierarchy_node_i_x", Table.ofList [(Property.code, .str "all")]⟩),
      ("q", ⟨"_hierarchy_node_i_x", Table.ofList [(Property.code, .str "all")]⟩),
      ("a", ⟨"_hierarchy_node_i_x", Table.ofList [(Property.label, .str "part")]⟩),
      ("c", ⟨"_hierarchy_node_i_x", .empty⟩),
      ("d", ⟨"_hierarchy_node_i_x", Table.ofList [(Property.order, .int 2)]⟩),
      ("e", ⟨"_hierarchy_node_i_y", .empty⟩)]
  edges :=
    [⟨⟨"1", EdgeLabel.hasParent, "c", "p"⟩, .empty⟩,
      ⟨⟨"2", EdgeLabel.hasParent, "c", "q"⟩, .empty⟩,
      ⟨⟨"3", EdgeLabel.hasParent, "a", "q"⟩, .empty⟩,
      ⟨⟨"4", EdgeLabel.hasParent, "d", "q"⟩, .empty⟩,
      ⟨⟨"5", EdgeLabel.hasParent, "e", "p"⟩, .empty⟩,
      ⟨⟨"6", EdgeLabel.hasParent, "f", "p"⟩, .empty⟩]
  supply := ⟨longerAndLonger 2, 0⟩

/-- The same edges the other way round, and one of them twice. -/
def twoParentsAgain : Graph :=
  { twoParents with
    edges := twoParents.edges.reverse ++ [⟨⟨"7", EdgeLabel.hasParent, "a", "q"⟩, .empty⟩] }

theorem childrenOf_twoParents :
    (twoParents.childrenOf (NodeLabel.hierarchy ⟨"i", "x"⟩) "all").map (·.id) =
      ["d", "c", "a"] := by
  have hids : (twoParents.childrenById (NodeLabel.hierarchy ⟨"i", "x"⟩) "all").map (·.id) =
      ["a", "c", "d"] := by decide +kernel
  rw [childrenOf_eq, ← records_map_id fun n hn => (mem_childrenById.1 hn).stored, hids]
  cbv

theorem children_by_rank_twoParents :
    twoParentsAgain.nodes = twoParents.nodes ∧
      twoParentsAgain.parentPairs ⊆ twoParents.parentPairs ∧
      twoParents.parentPairs ⊆ twoParentsAgain.parentPairs ∧
      ∃ children, twoParentsAgain.call .nodes ⟨.query (.children ⟨"i", "x"⟩ "all"), ""⟩ =
          (.ok children, twoParentsAgain) ∧
        children.map (·.id) = ["d", "c", "a"] := by
  have hsub : twoParentsAgain.parentPairs ⊆ twoParents.parentPairs := by decide +kernel
  have hsuper : twoParents.parentPairs ⊆ twoParentsAgain.parentPairs := by decide +kernel
  obtain ⟨children, hcall, -, -, -, hsame⟩ := children_by_rank twoParents ⟨"i", "x"⟩ "all" ""
  have hchildren : twoParents.childrenOf (NodeLabel.hierarchy ⟨"i", "x"⟩) "all" = children := by
    rw [call_children] at hcall
    exact Except.ok.inj (Prod.mk.inj hcall).1
  exact ⟨rfl, hsub, hsuper, children, hsame twoParentsAgain rfl hsub hsuper,
    hchildren ▸ childrenOf_twoParents⟩

end Graph
end InstanceHierarchy
