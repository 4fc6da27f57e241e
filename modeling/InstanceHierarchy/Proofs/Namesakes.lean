import InstanceHierarchy.Proofs.BulkOutcome
import InstanceHierarchy.Proofs.Confinement

/-!
# Hierarchies with the same label

A hierarchy is told from others by the label of its nodes.  The label joins the instance and the
dimension with an underscore, which may occur in both of them, so different hierarchies may have the
same label: then they are one hierarchy to every build and every read.  Builds of hierarchies with
different labels leave each other's nodes alone, but for chains of parent edges and clone edges that
lead from one to the other and have not been made by a build.
-/

namespace InstanceHierarchy

open Relation

/-- The instance of the second hierarchy begins with that of the first one, and the dimension of the
first one ends with that of the second one; what lies between is the same. -/
def HierarchyKey.Clashes (key other : HierarchyKey) : Prop :=
  ∃ between, other.instanceId = key.instanceId ++ "_" ++ between ∧
    key.dimension = between ++ "_" ++ other.dimension

theorem HierarchyKey.Clashes.hierarchy_eq {key other : HierarchyKey} (h : key.Clashes other) :
    NodeLabel.hierarchy key = NodeLabel.hierarchy other := by
  obtain ⟨between, hinstance, hdimension⟩ := h
  unfold NodeLabel.hierarchy
  rw [hinstance, hdimension]
  simp only [String.append_assoc]

/-- What the other instance has beyond this one is nothing, or it begins with the underscore that
joins this key and goes on with what lies between. -/
theorem HierarchyKey.eq_or_clashes {key other : HierarchyKey} {rest : List Char}
    (hinstance : other.instanceId.toList = key.instanceId.toList ++ rest)
    (hdimension : '_' :: key.dimension.toList = rest ++ '_' :: other.dimension.toList) :
    key = other ∨ key.Clashes other := by
  obtain ⟨i, d⟩ := key
  obtain ⟨i', d'⟩ := other
  cases rest with
  | nil =>
      obtain rfl : i' = i := String.toList_inj.1 (hinstance.trans (List.append_nil _))
      obtain rfl : d = d' := String.toList_inj.1 (List.cons.inj hdimension).2
      exact Or.inl rfl
  | cons c between =>
      obtain ⟨rfl, hbetween⟩ := List.cons.inj hdimension
      refine Or.inr ⟨String.ofList between, String.toList_inj.1 ?_, String.toList_inj.1 ?_⟩
      · simpa using hinstance
      · simpa using hbetween

/-- The labels of two hierarchies are the same only when an underscore may be read in two ways. -/
theorem hierarchy_eq_iff {key other : HierarchyKey} :
    NodeLabel.hierarchy key = NodeLabel.hierarchy other ↔
      key = other ∨ key.Clashes other ∨ other.Clashes key := by
  constructor
  · intro h
    have hjoined : key.instanceId.toList ++ '_' :: key.dimension.toList =
        other.instanceId.toList ++ '_' :: other.dimension.toList := by
      have hchars := congrArg String.toList h
      unfold NodeLabel.hierarchy at hchars
      simpa using hchars
    rcases List.append_eq_append_iff.1 hjoined with
      ⟨rest, hinstance, hdimension⟩ | ⟨rest, hinstance, hdimension⟩
    · exact (HierarchyKey.eq_or_clashes hinstance hdimension).imp_right Or.inl
    · exact (HierarchyKey.eq_or_clashes hinstance hdimension).imp Eq.symm Or.inr
  · rintro (rfl | hclash | hclash)
    · rfl
    · exact hclash.hierarchy_eq
    · exact hclash.hierarchy_eq.symm

namespace Graph

/-- Wherever a build of the first hierarchy is stopped, the nodes of the second one are as they were
at the start, if neither a chain of parent edges leads from the first one to the second one nor,
where places are given, a clone edge leaves the second one. -/
def Isolated (key other : HierarchyKey) : Prop :=
  ∀ (b : Backend) (course : Course) (t : Trouble) (codeList : Id) (g : Graph), g.Fresh →
    (∀ x y, g.label? x = some (NodeLabel.hierarchy key) → TransGen g.Up x y →
      g.label? y ≠ some (NodeLabel.hierarchy other)) →
    (course.placing = true → ∀ x s, g.Joined EdgeLabel.cloneOf x s →
      g.label? x ≠ some (NodeLabel.hierarchy other)) →
    ∀ c, ReflTransGen t.environment.Solo ((b.follow key codeList course).run, ⟨g, []⟩) c →
      c.2.graph.nodesWithLabel (NodeLabel.hierarchy other) =
        g.nodesWithLabel (NodeLabel.hierarchy other)

theorem isolated_of_ne {key other : HierarchyKey}
    (h : NodeLabel.hierarchy key ≠ NodeLabel.hierarchy other) : Isolated key other := by
  intro b course t codeList g hfresh habove hlinked c hmoves
  have hlabel : decide (NodeLabel.hierarchy key = NodeLabel.hierarchy other) = false :=
    decide_eq_false h
  have hnot : ∀ x, g.label? x ≠ some (NodeLabel.hierarchy other) →
      g.among (fun l => decide (l = NodeLabel.hierarchy other)) x = false := by
    intro x hx
    refine Bool.eq_false_iff.2 fun hamong => ?_
    obtain ⟨l, hl, hother⟩ := among_iff.1 hamong
    exact hx (of_decide_eq_true hother ▸ hl)
  have hsafe := safe_everywhere b course hlabel hfresh
    ⟨fun x y hx hchain => hnot y (habove x y hx hchain),
      fun hplacing x s hlink => hnot x (hlinked hplacing x s hlink)⟩ id hmoves
  exact nodesWithLabel_congr fun id v hv => hsafe.nodes id v (decide_eq_true hv)

/-- Nothing but one generic node. -/
def oneNode : Graph where
  nodes := Table.ofList [("a", ⟨NodeLabel.generic "list", .empty⟩)]
  edges := []
  supply := ⟨longerAndLonger 2, 0⟩

theorem label?_oneNode {x : Id} {l : String} (h : oneNode.label? x = some l) :
    l = NodeLabel.generic "list" := by
  obtain ⟨v, hv, rfl⟩ := Option.map_eq_some_iff.1 h
  have hmem : (x, v) ∈ [("a", Vertex.mk (NodeLabel.generic "list") .empty)] :=
    Table.get?_eq_some_iff.1 hv
  rw [(Prod.mk.inj (List.mem_singleton.1 hmem)).2]

/-- After a node was cloned for a hierarchy there is a node in it. -/
theorem exists_label?_cloneNode {g : Graph} {source : Id} {n : Node} (label : String)
    (hsource : g.node? source = some n) (codeList : Id) (hasData : Bool) :
    ∃ x, (g.cloneNode source label codeList hasData).label? x = some label := by
  rcases g.cloneNode_cases source label codeList hasData with
    ⟨hnone, -⟩ | ⟨n', -, ⟨clone, rest, hclones, hlink⟩ | ⟨v, rfl, -, hlink⟩⟩
  · rw [hsource] at hnone
    cases hnone
  · have hmem : clone ∈ g.idsWithCode label n'.cloneCode := hclones ▸ List.mem_cons_self
    exact ⟨clone, by rw [hlink, label?_mergeEdge, (mem_idsWithCode.1 hmem).label]⟩
  · exact ⟨_, by rw [hlink, label?_mergeEdge, label?_addVertex_self]⟩

/-- A build begins with cloning, so a hierarchy with the label of the one that is built gets a node
that it did not have. -/
theorem not_isolated_of_eq {key other : HierarchyKey}
    (h : NodeLabel.hierarchy key = NodeLabel.hierarchy other) : ¬ Isolated key other := by
  intro hisolated
  have hfree : ∀ (k : HierarchyKey) x, oneNode.label? x ≠ some (NodeLabel.hierarchy k) :=
    fun k x hx => hierarchy_ne_generic k "list" (label?_oneNode hx)
  -- nothing goes wrong, and the build has made its first call
  let t : Trouble := ⟨fun _ => .carriedOut, fun _ => false⟩
  have hkept := hisolated (.gremlin (.of 1 1) (.of 1 1)) .bulk t "list" oneNode
    (fresh_of_short rfl (by decide +kernel) (by decide +kernel))
    (fun x _ hx => absurd hx (hfree key x)) nofun _ (.single Environment.Move.call.solo)
  have hcloned : (oneNode.mutate (.cloneList key "list")).2 =
      oneNode.cloneNode "a" (NodeLabel.hierarchy key) "list" false := by
    have hsources : oneNode.idsWithLabel (NodeLabel.generic "list") = ["a"] := by decide +kernel
    show oneNode.cloneNodes (oneNode.idsWithLabel _) _ "list" false = _
    rw [hsources]
    rfl
  have hnode : oneNode.node? "a" = some ⟨"a", NodeLabel.generic "list", .empty⟩ := rfl
  obtain ⟨x, hx⟩ := exists_label?_cloneNode (NodeLabel.hierarchy key) hnode "list" false
  rw [← hcloned, h, ← mem_idsWithLabel] at hx
  have hx' : x ∈ oneNode.idsWithLabel (NodeLabel.hierarchy other) := by
    unfold idsWithLabel at hx ⊢
    rw [← hkept]
    exact hx
  exact hfree other x (mem_idsWithLabel.1 hx')

/-- Builds of one hierarchy leave another one alone exactly when their labels are different. -/
theorem isolated_iff (key other : HierarchyKey) :
    Isolated key other ↔ key ≠ other ∧ ¬ key.Clashes other ∧ ¬ other.Clashes key := by
  rw [← not_or, ← not_or, ← hierarchy_eq_iff]
  exact ⟨fun hisolated h => not_isolated_of_eq h hisolated, isolated_of_ne⟩

/-- One node of the hierarchy of the dimension `b_c` of the instance `a`. -/
def namesake : Graph where
  nodes := Table.ofList
    [("k", ⟨NodeLabel.hierarchy ⟨"a", "b_c"⟩,
      Table.ofList [(Property.code, .str "part"), (Property.hasData, .bool false)]⟩)]
  edges := []
  supply := ⟨longerAndLonger 2, 0⟩

/-- A build for the dimension `c` of the instance `a_b` prunes the node. -/
theorem buildBulk_removes_namesake :
    (⟨"a", "b_c"⟩ : HierarchyKey) ≠ ⟨"a_b", "c"⟩ ∧
    NodeLabel.hierarchy ⟨"a", "b_c"⟩ = NodeLabel.hierarchy ⟨"a_b", "c"⟩ ∧
    namesake.Fresh ∧
    namesake.idsWithLabel (NodeLabel.hierarchy ⟨"a", "b_c"⟩) = ["k"] ∧
    (Environment.graph.run ((Backend.gremlin (.of 1 1) (.of 1 1)).buildBulk ⟨"a_b", "c"⟩
      "list").run namesake).2.idsWithLabel (NodeLabel.hierarchy ⟨"a", "b_c"⟩) = [] :=
  ⟨by decide, by decide +kernel, fresh_of_short rfl (by decide +kernel) (by decide +kernel),
    by decide +kernel, by decide +kernel⟩

end Graph
end InstanceHierarchy
