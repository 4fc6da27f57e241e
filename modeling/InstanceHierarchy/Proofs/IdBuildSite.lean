import InstanceHierarchy.Proofs.TrailPicture

/-!
# The site of builds from ids

Builds from ids of one code list work at one site: the graph at the start, in which sources get
linked to their codes while hierarchies come and go.  Every call of such a build leaves a site, keeps
the nodes of all hierarchies and the links to codes, and changes the pictures of the hierarchies as
the call says.
-/

namespace InstanceHierarchy

/-- What builds from ids set out from: the sources have distinct codes, their parent edges lead to
sources, and nothing is linked yet; only hierarchies are under construction. -/
structure Plan.Ready (P : Plan) (L : Set String) : Prop where
  distinct : P.start.DistinctCodes (NodeLabel.generic P.codeList)
  inside : ∀ a b, P.start.Up a b → P.start.label? a = some (NodeLabel.generic P.codeList) →
    P.start.label? b = some (NodeLabel.generic P.codeList)
  unlinked : ∀ a b, ¬ P.start.Joined EdgeLabel.cloneOf a b
  hierarchies : ∀ K ∈ L, ∃ key, K = NodeLabel.hierarchy key

namespace Graph

variable {L : Set String} {P : Plan} {g g' g'' : Graph}

/-! ## Nodes that stay -/

/-- Whatever carries a code under a label carries it afterwards. -/
def Kept (g g' : Graph) : Prop := ∀ l c id, g.Coded l c id → g'.Coded l c id

theorem Kept.refl (g : Graph) : Kept g g := fun _ _ _ h => h

theorem Kept.trans (h : Kept g g') (h' : Kept g' g'') : Kept g g'' :=
  fun l c id hc => h' l c id (h l c id hc)

theorem Kept.of_nodes (h : g'.nodes = g.nodes) : Kept g g' := by
  intro l c id hc
  unfold Coded at hc ⊢
  rw [h]
  exact hc

theorem Rewrites.kept {F : Id → Properties → Properties} (h : Rewrites g g' F) : Kept g g' :=
  fun _ _ _ hc => h.coded.2 hc

theorem nodes_relate (g : Graph) (ids : List Id) (label : String) :
    (g.relate ids label).2.nodes = g.nodes := by
  unfold relate
  have key : ∀ state : List Edge × Graph, (ids.foldl (fun state source =>
      linkParents state (state.2.relatePairs label source)) state).2.nodes = state.2.nodes := by
    induction ids with
    | nil => exact fun state => rfl
    | cons s rest ih =>
        intro state
        rw [List.foldl_cons, ih, nodes_linkParents]
  exact key ([], g)

theorem kept_cloneNode (hg : g.Fresh) (s : Id) (label : String) (codeList : Id) (hasData : Bool) :
    Kept g (g.cloneNode s label codeList hasData) := by
  rcases g.cloneNode_cases s label codeList hasData with
    ⟨-, heq⟩ | ⟨n, -, ⟨clone, rest, -, heq⟩ | ⟨v, -, -, heq⟩⟩
  · rw [heq]
    exact .refl g
  · rw [heq]
    exact fun l c id hc => coded_mergeEdge.2 hc
  · rw [heq]
    exact fun l c id hc => coded_mergeEdge.2 ((coded_addVertex hg).2 (Or.inl hc))

theorem kept_cloneNodes {label : String} {ids : List Id} (codeList : Id) (hasData : Bool)
    (hs : Sound L g) (hL : label ∈ L) (hids : ∀ id ∈ ids, ∃ n, g.node? id = some n ∧ n.label ∉ L) :
    Kept g (g.cloneNodes ids label codeList hasData) := by
  induction ids generalizing g with
  | nil => exact .refl g
  | cons s rest ih =>
      obtain ⟨n, hn, hout⟩ := hids s List.mem_cons_self
      have hone := effect_cloneNode codeList hasData hs hL hn hout
      refine (kept_cloneNode hs.fresh s label codeList hasData).trans (ih hone.sound fun x hx => ?_)
      obtain ⟨m, hm, hmout⟩ := hids x (List.mem_cons_of_mem _ hx)
      have hget := (hone.preserves.nodes x m.vertex hmout).2 (node?_eq_some.1 hm).2
      exact ⟨m, node?_eq_some.2 ⟨(node?_eq_some.1 hm).1, hget⟩, hmout⟩

theorem kept_copyOrder (g : Graph) (codeList s : Id) : Kept g (g.copyOrder codeList s) := by
  unfold copyOrder
  cases g.orderOf? codeList s with
  | none => exact .refl g
  | some order => exact (setProperties_rewrites g _ order (by decide)).kept

theorem kept_mutate_copyOrder (g : Graph) (codeList : Id) (ids : List Id) :
    Kept g (g.mutate (.copyOrder codeList ids)).2 := by
  show Kept g (ids.foldl (fun g id => g.copyOrder codeList id) g)
  induction ids generalizing g with
  | nil => exact .refl g
  | cons s rest ih => exact (kept_copyOrder g codeList s).trans (ih (g.copyOrder codeList s))

/-! ## Links to codes -/

theorem edgesWithLabel_addEdge (g : Graph) (l : String) (s t : Id) :
    ∃ e : StoredEdge, e.source = s ∧ e.target = t ∧
      (g.addEdge l s t .empty).2.edgesWithLabel l = g.edgesWithLabel l ++ [e] := by
  refine ⟨⟨(g.addEdge l s t .empty).1, .empty⟩, rfl, rfl, ?_⟩
  unfold addEdge edgesWithLabel
  show (g.edges ++ [_]).filter _ = _
  rw [List.filter_append, List.filter_cons_of_pos (by simp), List.filter_nil]

theorem targets_mergeEdge (g : Graph) (l : String) (s t a : Id) :
    (g.mergeEdge l s t).2.targets a l =
      if a = s ∧ t ∉ g.targets s l then g.targets a l ++ [t] else g.targets a l := by
  unfold mergeEdge
  by_cases hedge : g.hasEdge l s t = true
  · -- the edge is there already
    have hmem : t ∈ g.targets s l := mem_targets.2 (hasEdge_iff.1 hedge)
    rw [if_pos hedge, if_neg fun h => h.2 hmem]
  · have hmem : t ∉ g.targets s l := fun h => hedge (hasEdge_iff.2 (mem_targets.1 h))
    rw [if_neg hedge]
    obtain ⟨e, rfl, rfl, hedges⟩ := edgesWithLabel_addEdge g l s t
    show (g.addEdge l e.source e.target .empty).2.targets a l = _
    rw [targets_eq, hedges, List.filter_append, List.map_append, ← targets_eq]
    by_cases ha : a = e.source
    · subst ha
      rw [if_pos ⟨rfl, hmem⟩]
      simp
    · have hne : e.source ≠ a := fun h => ha h.symm
      rw [if_neg fun h => ha h.1]
      simp [hne]

/-- Linking a node to its code changes where it leads to at most. -/
theorem targets_linkCode {codeList s : Id} {code : String} (hs : g.nodes.contains s = true) (a : Id) :
    (g.linkCode codeList s code).targets a EdgeLabel.hasCode =
      match g.codeNode? codeList code with
      | some m =>
          if a = s ∧ m.id ∉ g.targets s EdgeLabel.hasCode then
            g.targets a EdgeLabel.hasCode ++ [m.id]
          else g.targets a EdgeLabel.hasCode
      | none => g.targets a EdgeLabel.hasCode := by
  rcases g.linkCode_cases codeList s code with ⟨hnone, heq⟩ | ⟨m, hm, -, heq⟩
  · cases hcode : g.codeNode? codeList code with
    | none => rw [heq]
    | some m => simp [hnone m hcode] at hs
  · rw [heq, hm]
    exact targets_mergeEdge g EdgeLabel.hasCode s m.id a

/-- Other nodes lead where they led. -/
theorem targets_linkCode_of_ne {codeList s a : Id} (code : String) (h : a ≠ s) :
    (g.linkCode codeList s code).targets a EdgeLabel.hasCode = g.targets a EdgeLabel.hasCode := by
  rcases g.linkCode_cases codeList s code with ⟨-, heq⟩ | ⟨m, -, -, heq⟩
  · rw [heq]
  · rw [heq, targets_mergeEdge, if_neg fun h' => h h'.1]

theorem edgesWithLabel_linkCode {codeList : Id} (s : Id) (code : String) {l : String}
    (h : EdgeLabel.hasCode ≠ l) :
    (g.linkCode codeList s code).edgesWithLabel l = g.edgesWithLabel l := by
  rcases g.linkCode_cases codeList s code with ⟨-, heq⟩ | ⟨m, -, -, heq⟩
  · rw [heq]
  · rw [heq]
    exact edgesWithLabel_mergeEdge s m.id h

theorem nodes_linkCode (g : Graph) (codeList s : Id) (code : String) :
    (g.linkCode codeList s code).nodes = g.nodes := by
  rcases g.linkCode_cases codeList s code with ⟨-, heq⟩ | ⟨m, -, -, heq⟩
  · rw [heq]
  · rw [heq, nodes_mergeEdge]

/-! ## Sites -/

theorem hierarchy_ne_code (key : HierarchyKey) (codeList : Id) :
    NodeLabel.hierarchy key ≠ NodeLabel.code codeList := by
  intro h
  have hchars := congrArg String.toList h
  unfold NodeLabel.hierarchy NodeLabel.code at hchars
  simp only [String.toList_append] at hchars
  have hsecond := congrArg (fun cs : List Char => cs[1]?) hchars
  revert hsecond
  simp

theorem hierarchy_ne_codeList (key : HierarchyKey) (codeList : Id) :
    NodeLabel.hierarchy key ≠ NodeLabel.codeList codeList := by
  intro h
  have hchars := congrArg String.toList h
  unfold NodeLabel.hierarchy NodeLabel.codeList at hchars
  simp only [String.toList_append] at hchars
  have hsecond := congrArg (fun cs : List Char => cs[1]?) hchars
  revert hsecond
  simp

/-- Where a source leads by links to codes is where linking it to its code makes it lead. -/
def CodeLinked (P : Plan) (g : Graph) (s : Id) : Prop :=
  g.targets s EdgeLabel.hasCode = (P.withCode s).targets s EdgeLabel.hasCode

/-- The graph in which builds from ids work, at any moment. -/
structure Site (L : Set String) (P : Plan) (g : Graph) : Prop where
  sound : Sound L g
  preserves : Preserves L P.start g
  usedBy : g.edgesWithLabel EdgeLabel.usedBy = P.start.edgesWithLabel EdgeLabel.usedBy
  codes : ∀ s, g.targets s EdgeLabel.hasCode = P.start.targets s EdgeLabel.hasCode ∨
    g.CodeLinked P s

end Graph

namespace Plan.Ready

variable {L : Set String} {P : Plan}

theorem generic (h : P.Ready L) : NodeLabel.generic P.codeList ∉ L := by
  intro hL
  obtain ⟨key, hkey⟩ := h.hierarchies _ hL
  exact Graph.hierarchy_ne_generic key P.codeList hkey.symm

theorem code (h : P.Ready L) : NodeLabel.code P.codeList ∉ L := by
  intro hL
  obtain ⟨key, hkey⟩ := h.hierarchies _ hL
  exact Graph.hierarchy_ne_code key P.codeList hkey.symm

theorem list (h : P.Ready L) : NodeLabel.codeList P.codeList ∉ L := by
  intro hL
  obtain ⟨key, hkey⟩ := h.hierarchies _ hL
  exact Graph.hierarchy_ne_codeList key P.codeList hkey.symm

/-- A site before any build has begun. -/
theorem site (hfresh : P.start.Fresh) (hfree : ∀ K ∈ L, ∀ id, P.start.label? id ≠ some K) :
    Graph.Site L P P.start :=
  ⟨.start hfresh hfree, .refl L P.start, rfl, fun _ => Or.inl rfl⟩

end Plan.Ready

namespace Graph

variable {L : Set String} {P : Plan} {g g' g'' : Graph}

namespace Site

/-- Only clones of the hierarchies under construction are linked. -/
theorem stray (h : Site L P g) (hready : P.Ready L) (a s : Id) : ¬ g.Stray L a s :=
  fun hstray => hready.unlinked a s (h.preserves.stray a s hstray).1

/-- The sources are as they were. -/
theorem source (h : Site L P g) (hready : P.Ready L) {n : Node} (hn : n ∈ P.sources) :
    g.node? n.id = some n ∧ n.label ∉ L := by
  obtain ⟨hlabel, hget⟩ := Plan.mem_sources.1 hn
  have hout : n.label ∉ L := fun hL => hready.generic (hlabel ▸ hL)
  exact ⟨node?_eq_some.2 ⟨rfl, (h.preserves.nodes n.id n.vertex hout).2 hget⟩, hout⟩

theorem outside (h : Site L P g) (hready : P.Ready L) {ids : List Id}
    (hids : ∀ s ∈ ids, ∃ n ∈ P.sources, n.id = s) :
    ∀ s ∈ ids, ∃ n, g.node? s = some n ∧ n.label ∉ L := by
  intro s hs
  obtain ⟨n, hn, rfl⟩ := hids s hs
  obtain ⟨hnode, hout⟩ := h.source hready hn
  exact ⟨n, hnode, hout⟩

theorem records (h : Site L P g) (hready : P.Ready L) {ids : List Id}
    (hids : ∀ s ∈ ids, ∃ n ∈ P.sources, n.id = s) : g.records ids = P.start.records ids := by
  refine List.filterMap_congr fun s hs => ?_
  obtain ⟨n, hn, rfl⟩ := hids s hs
  rw [(h.source hready hn).1, node?_eq_some.2 ⟨rfl, (Plan.mem_sources.1 hn).2⟩]

theorem up (h : Site L P g) (hready : P.Ready L) {n : Node} (hn : n ∈ P.sources) (t : Id) :
    g.Up n.id t ↔ P.start.Up n.id t := by
  obtain ⟨hlabel, hget⟩ := Plan.mem_sources.1 hn
  exact h.preserves.up n.id n.vertex hget (fun hL => hready.generic (hlabel ▸ hL)) t

end Site

theorem codeLinked_eq {n : Node} (hn : n ∈ P.sources) :
    P.withCode n.id = P.start.linkCode P.codeList n.id n.cloneCode := by
  unfold Plan.withCode
  rw [node?_eq_some.2 ⟨rfl, (Plan.mem_sources.1 hn).2⟩]

theorem contains_of_node? {n : Node} {s : Id} (h : g.node? s = some n) :
    g.nodes.contains s = true := by
  unfold Table.contains
  rw [(node?_eq_some.1 h).2]
  rfl

/-- Linking a source to its code where it is not linked yet, or is already. -/
theorem Site.codeLinked_linkCode (h : Site L P g) (hready : P.Ready L) {n : Node}
    (hn : n ∈ P.sources) : (g.linkCode P.codeList n.id n.cloneCode).CodeLinked P n.id := by
  have hsame : g.codeNode? P.codeList n.cloneCode = P.start.codeNode? P.codeList n.cloneCode := by
    unfold codeNode?
    rw [h.preserves.nodesWithLabel hready.code]
  have hstart : P.start.node? n.id = some n := node?_eq_some.2 ⟨rfl, (Plan.mem_sources.1 hn).2⟩
  have hcodes := h.codes n.id
  unfold CodeLinked at hcodes ⊢
  rw [codeLinked_eq hn, targets_linkCode (contains_of_node? hstart)] at hcodes ⊢
  rw [targets_linkCode (contains_of_node? (h.source hready hn).1), hsame]
  cases hcode : P.start.codeNode? P.codeList n.cloneCode with
  | none =>
      simp only [hcode, or_self] at hcodes ⊢
      exact hcodes
  | some m =>
      simp only [hcode, true_and] at hcodes ⊢
      rcases hcodes with hcodes | hcodes
      · rw [hcodes]
      · -- the link is there already, so it is not made again
        have hmem : m.id ∈ g.targets n.id EdgeLabel.hasCode := by
          rw [hcodes]
          split
          · exact List.mem_append_right _ List.mem_cons_self
          · rename_i hnot
            exact not_not.1 hnot
        rw [if_neg fun hnot => hnot hmem, hcodes]

/-- The place of a source that is linked to its code. -/
theorem Site.orderOf? (h : Site L P g) (hready : P.Ready L) {n : Node} (hn : n ∈ P.sources)
    (hlinked : g.CodeLinked P n.id) : g.orderOf? P.codeList n.id = P.place n.id := by
  unfold Plan.place
  refine orderOf?_congr hlinked ?_ fun id => ?_
  · rw [codeLinked_eq hn, h.usedBy, edgesWithLabel_linkCode _ _ (by decide)]
  · rw [codeLinked_eq hn, Bool.eq_iff_iff, isLabelled_iff, isLabelled_iff, h.preserves.label hready.list]
    unfold label?
    rw [nodes_linkCode]

end Graph
end InstanceHierarchy
