import InstanceHierarchy.Proofs.Additions

/-!
# What mutations leave alone

A build of a hierarchy adds, changes and removes nodes with the label of the hierarchy, and hardly
any others.  It finds the nodes that it works on by that label, but for two steps: the marks of
nodes that are to remain are set along chains of parent edges, and places are given along clone
edges, wherever these lead.  Nodes with some other labels are spared for certain when no such chain
and no such edge connects them to the hierarchy.  That is so at the beginning or never, because
mutations do not make connections of that kind.

Parent edges and clone edges may lead to ids or from ids that no node has.
-/

namespace InstanceHierarchy
namespace Graph

open Relation

variable {g g' : Graph} {spared : String → Bool} {label : String} {codeList : Id}
  {cloned : Id → Prop} {placing : Prop}

/-! ## Nodes and edges to be spared -/

/-- The id is that of a node with one of some labels. -/
def among (g : Graph) (spared : String → Bool) (id : Id) : Bool := (g.label? id).any spared

/-- Both ends of the edge are nodes with some labels. -/
def between (g : Graph) (spared : String → Bool) (e : StoredEdge) : Bool :=
  g.among spared e.source && g.among spared e.target

theorem among_iff {id : Id} :
    g.among spared id = true ↔ ∃ l, g.label? id = some l ∧ spared l = true := by
  unfold among
  rw [Option.any_eq_true]

theorem among_of_get? {id : Id} {v : Vertex} (h : g.nodes.get? id = some v) :
    g.among spared id = spared v.label := by
  unfold among
  rw [label_of_get? h]
  rfl

theorem among_of_label {id : Id} (hlabel : spared label = false) (h : g.label? id = some label) :
    g.among spared id = false := by
  unfold among
  rw [h]
  exact hlabel

theorem among_congr {id : Id} (h : g'.label? id = g.label? id) :
    g'.among spared id = g.among spared id := by
  unfold among
  rw [h]

/-- Nothing leads from a hierarchy, or by clone edges from elsewhere, to what is to be spared:  no
chain of parent edges from the nodes with a label ends at a node that is to be spared, and when
places are given, no clone edge begins at one. -/
structure OutOfReach (g : Graph) (label : String) (spared : String → Bool) (placing : Prop) :
    Prop where
  above : ∀ a b, g.label? a = some label → TransGen g.Up a b → g.among spared b = false
  linked : placing → ∀ a s, g.Joined EdgeLabel.cloneOf a s → g.among spared a = false

/-- Merging adds no edge but the one that is asked for. -/
theorem edges_mergeEdge (g : Graph) (l : String) (s t : Id) :
    ∃ new, (g.mergeEdge l s t).2.edges = g.edges ++ new ∧
      ∀ e ∈ new, e.label = l ∧ e.source = s ∧ e.target = t := by
  unfold mergeEdge
  split
  · exact ⟨[], (List.append_nil _).symm, nofun⟩
  · refine ⟨_, rfl, fun e he => ?_⟩
    obtain rfl := List.mem_singleton.1 he
    exact ⟨rfl, rfl, rfl⟩

theorem joined_of_mergeEdge {l l' : String} {s t a b : Id}
    (h : (g.mergeEdge l s t).2.Joined l' a b) (hne : l ≠ l') : g.Joined l' a b :=
  (joined_mergeEdge.1 h).resolve_right fun heq => hne heq.1

/-- An edge from a node of the hierarchy is not one between nodes that are to be spared. -/
theorem filter_mergeEdge {a : Id} (h : g.among spared a = false) (l : String) (b : Id) :
    (g.mergeEdge l a b).2.edges.filter (g.between spared) = g.edges.filter (g.between spared) := by
  obtain ⟨new, hedges, hnew⟩ := g.edges_mergeEdge l a b
  have hnone : new.filter (g.between spared) = [] := by
    refine List.filter_eq_nil_iff.2 fun e he hbetween => ?_
    obtain ⟨-, rfl, -⟩ := hnew e he
    unfold between at hbetween
    rw [h, Bool.false_and] at hbetween
    cases hbetween
  rw [hedges, List.filter_append, hnone, List.append_nil]

/-- Edges are dropped, but none between nodes that are to be spared. -/
theorem filter_between {keep : StoredEdge → Bool} {edges : List StoredEdge}
    (h : ∀ e ∈ edges, g.between spared e = true → keep e = true) :
    (edges.filter keep).filter (g.between spared) = edges.filter (g.between spared) := by
  rw [List.filter_filter]
  refine List.filter_congr fun e he => ?_
  cases hbetween : g.between spared e with
  | false => exact Bool.false_and _
  | true => exact (Bool.true_and _).trans (h e he hbetween)

theorem among_of_between {e : StoredEdge} (h : g.between spared e = true) :
    g.among spared e.source = true ∧ g.among spared e.target = true :=
  Bool.and_eq_true_iff.1 h

/-! ## One change -/

/-- One change that a build makes: of a hierarchy that is told by its label, from a code list, with
codes linked to nodes that have been cloned.  Properties of nodes that are to be spared are not
rewritten. -/
inductive Touch (label : String) (codeList : Id) (cloned : Id → Prop) (spared : String → Bool)
    (g : Graph) : Graph → Prop where
  | rewrite {g' : Graph} {F : Id → Properties → Properties} (h : Rewrites g g' F)
      (hF : ∀ id, g.among spared id = true → ∀ ps, F id ps = ps) :
      Touch label codeList cloned spared g g'
  | linkClone {a s : Id} (ha : g.label? a = some label) (hs : g.nodes.contains s) :
      Touch label codeList cloned spared g (g.mergeEdge EdgeLabel.cloneOf a s).2
  | linkParent {a b : Id} (ha : g.label? a = some label) (hb : g.label? b = some label) :
      Touch label codeList cloned spared g (g.mergeEdge EdgeLabel.hasParent a b).2
  | linkCode {s t : Id} (hs : g.nodes.contains s) (hcloned : cloned s)
      (ht : g.label? t = some (NodeLabel.code codeList)) :
      Touch label codeList cloned spared g (g.mergeEdge EdgeLabel.hasCode s t).2
  | addVertex {v : Vertex} {c : String} (hv : v.label = label) (hc : codeIn v.properties = some c)
      (hnew : ∀ a, ¬ g.Coded v.label c a) :
      Touch label codeList cloned spared g (g.addVertex v).2
  | removeNodes {ids : List Id} (hids : ∀ id ∈ ids, g.label? id = some label) :
      Touch label codeList cloned spared g (ids.foldl removeNode g)
  | dropLinks (test : StoredEdge → Bool) :
      Touch label codeList cloned spared g (g.dropEdges EdgeLabel.cloneOf test)

namespace Touch

theorem change (h : Touch label codeList cloned spared g g') : Change (· = label) g g' := by
  cases h with
  | rewrite h => exact .rewrite h
  | linkClone ha hs => exact .mergeEdge _ (contains_of_label ha) hs (Or.inr ⟨label, rfl, ha⟩)
  | linkParent ha hb =>
      exact .mergeEdge _ (contains_of_label ha) (contains_of_label hb) (Or.inr ⟨label, rfl, ha⟩)
  | linkCode hs _ ht => exact .mergeEdge _ hs (contains_of_label ht) (Or.inl rfl)
  | addVertex hv hc hnew => exact .addVertex hv hc hnew
  | removeNodes hids => exact .removeNodes fun id hid => ⟨label, rfl, hids id hid⟩
  | dropLinks test => exact .dropLinks test

variable (hlabel : spared label = false) (hfresh : g.Fresh)

include hlabel hfresh

/-- The nodes to be spared are as they were. -/
theorem nodes (h : Touch label codeList cloned spared g g') {id : Id} {v : Vertex}
    (hv : spared v.label = true) : g'.nodes.get? id = some v ↔ g.nodes.get? id = some v := by
  cases h with
  | @rewrite _ F hrw hF =>
      rw [hrw.nodes, Option.map_eq_some_iff]
      constructor
      · rintro ⟨w, hw, rfl⟩
        rw [hF id ((among_of_get? hw).trans hv) w.properties]
        exact hw
      · intro hw
        exact ⟨v, hw, by rw [hF id ((among_of_get? hw).trans hv) v.properties]⟩
  | linkClone => rw [nodes_mergeEdge]
  | linkParent => rw [nodes_mergeEdge]
  | linkCode => rw [nodes_mergeEdge]
  | @addVertex w c hw =>
      rw [get?_addVertex]
      split
      · rename_i hid
        subst hid
        rw [hfresh.unstored _ (future_addVertex g w)]
        constructor
        · intro heq
          obtain rfl := Option.some.inj heq
          rw [hw, hlabel] at hv
          cases hv
        · intro hnone
          cases hnone
      · rfl
  | removeNodes hids =>
      rw [get?_removeNodes_iff]
      refine and_iff_left_of_imp fun hid hmem => ?_
      have hnot := among_of_label hlabel (hids id hmem)
      rw [among_of_get? hid, hv] at hnot
      cases hnot
  | dropLinks => rfl

theorem among_eq (h : Touch label codeList cloned spared g g') (id : Id) :
    g'.among spared id = g.among spared id := by
  rw [Bool.eq_iff_iff, among_iff, among_iff]
  constructor
  · rintro ⟨l, hl, hspared⟩
    obtain ⟨ps, hps⟩ := label?_eq_some_iff.1 hl
    exact ⟨l, label_of_get? ((h.nodes hlabel hfresh hspared).1 hps), hspared⟩
  · rintro ⟨l, hl, hspared⟩
    obtain ⟨ps, hps⟩ := label?_eq_some_iff.1 hl
    exact ⟨l, label_of_get? ((h.nodes hlabel hfresh hspared).2 hps), hspared⟩

omit hlabel hfresh in
/-- New parent edges connect nodes of the hierarchy. -/
theorem up (h : Touch label codeList cloned spared g g') {a b : Id} (hup : g'.Up a b) :
    g.Up a b ∨ (g.label? a = some label ∧ g.label? b = some label) := by
  cases h with
  | rewrite hrw => exact Or.inl (hrw.joined.1 hup)
  | linkClone => exact Or.inl (joined_of_mergeEdge hup (by decide))
  | linkParent ha hb =>
      rcases joined_mergeEdge.1 hup with hup | ⟨-, rfl, rfl⟩
      · exact Or.inl hup
      · exact Or.inr ⟨ha, hb⟩
  | linkCode => exact Or.inl (joined_of_mergeEdge hup (by decide))
  | addVertex => exact Or.inl hup
  | removeNodes => exact Or.inl (joined_removeNodes.1 hup).1
  | dropLinks test => exact Or.inl (joined_of_dropEdges hup)

omit hlabel hfresh in
/-- New clone edges leave nodes of the hierarchy. -/
theorem link (h : Touch label codeList cloned spared g g') {a s : Id}
    (hlink : g'.Joined EdgeLabel.cloneOf a s) :
    g.Joined EdgeLabel.cloneOf a s ∨ g.label? a = some label := by
  cases h with
  | rewrite hrw => exact Or.inl (hrw.joined.1 hlink)
  | linkClone ha =>
      rcases joined_mergeEdge.1 hlink with hlink | ⟨-, rfl, -⟩
      · exact Or.inl hlink
      · exact Or.inr ha
  | linkParent => exact Or.inl (joined_of_mergeEdge hlink (by decide))
  | linkCode => exact Or.inl (joined_of_mergeEdge hlink (by decide))
  | addVertex => exact Or.inl hlink
  | removeNodes => exact Or.inl (joined_removeNodes.1 hlink).1
  | dropLinks test => exact Or.inl (joined_of_dropEdges hlink)

omit hlabel in
/-- Nodes of the hierarchy at which there are edges have been nodes of it before. -/
theorem label_of_up (h : Touch label codeList cloned spared g g') {a b : Id}
    (ha : g'.label? a = some label) (hup : g.Up a b) : g.label? a = some label := by
  cases h with
  | rewrite hrw => rwa [hrw.label] at ha
  | linkClone => rwa [label?_mergeEdge] at ha
  | linkParent => rwa [label?_mergeEdge] at ha
  | linkCode => rwa [label?_mergeEdge] at ha
  | @addVertex v c =>
      unfold label? at ha
      rw [get?_addVertex] at ha
      split at ha
      · rename_i hid
        exact absurd hup (hfresh.unjoined a (hid ▸ future_addVertex g v) _ b).1
      · exact ha
  | removeNodes => exact (label_removeNodes_iff.1 ha).1
  | dropLinks => exact ha

omit hlabel in
/-- A chain of parent edges from the hierarchy led from it before, or it ends in it. -/
theorem chain (h : Touch label codeList cloned spared g g') {a b : Id}
    (ha : g'.label? a = some label) (hchain : TransGen g'.Up a b) :
    (∃ a', g.label? a' = some label ∧ TransGen g.Up a' b) ∨ g.label? b = some label := by
  induction hchain with
  | single hup =>
      rcases h.up hup with hup | ⟨-, hb⟩
      · exact Or.inl ⟨a, h.label_of_up hfresh ha hup, .single hup⟩
      · exact Or.inr hb
  | tail _ hup ih =>
      rcases h.up hup with hup | ⟨-, hc⟩
      · rcases ih with ⟨a', ha', hchain⟩ | hb
        · exact Or.inl ⟨a', ha', hchain.tail hup⟩
        · exact Or.inl ⟨_, hb, .single hup⟩
      · exact Or.inr hc

/-- What was out of reach stays so. -/
theorem outOfReach (h : Touch label codeList cloned spared g g')
    (hout : g.OutOfReach label spared placing) : g'.OutOfReach label spared placing := by
  constructor
  · intro a b ha hchain
    rw [h.among_eq hlabel hfresh]
    rcases h.chain hfresh ha hchain with ⟨a', ha', hchain⟩ | hb
    · exact hout.above a' b ha' hchain
    · exact among_of_label hlabel hb
  · intro hplacing a s hlink
    rw [h.among_eq hlabel hfresh]
    rcases h.link hlink with hlink | ha
    · exact hout.linked hplacing a s hlink
    · exact among_of_label hlabel ha

/-- The edges between nodes to be spared are as they were, but for an edge from a node that has been
cloned to a code of the code list. -/
theorem edges (h : Touch label codeList cloned spared g g')
    (hlinked : ∀ a s, g.Joined EdgeLabel.cloneOf a s → g.among spared a = false) :
    ∃ added, g'.edges.filter (g'.between spared) = g.edges.filter (g.between spared) ++ added ∧
      ∀ e ∈ added, e.label = EdgeLabel.hasCode ∧ cloned e.source ∧
        g'.label? e.target = some (NodeLabel.code codeList) := by
  have hbetween : g'.between spared = g.between spared := by
    funext e
    unfold between
    rw [h.among_eq hlabel hfresh, h.among_eq hlabel hfresh]
  rw [hbetween]
  cases h with
  | rewrite hrw => exact ⟨[], by rw [hrw.edges, List.append_nil], nofun⟩
  | linkClone ha =>
      refine ⟨[], ?_, nofun⟩
      rw [filter_mergeEdge (among_of_label hlabel ha), List.append_nil]
  | linkParent ha =>
      refine ⟨[], ?_, nofun⟩
      rw [filter_mergeEdge (among_of_label hlabel ha), List.append_nil]
  | @linkCode s t hs hcloned ht =>
      obtain ⟨new, hedges, hnew⟩ := g.edges_mergeEdge EdgeLabel.hasCode s t
      refine ⟨new.filter (g.between spared), by rw [hedges, List.filter_append], fun e he => ?_⟩
      obtain ⟨hl, rfl, rfl⟩ := hnew e (List.mem_of_mem_filter he)
      exact ⟨hl, hcloned, (label?_mergeEdge _ _ _ _ _).trans ht⟩
  | addVertex => exact ⟨[], (List.append_nil _).symm, nofun⟩
  | removeNodes hids =>
      refine ⟨[], ?_, nofun⟩
      rw [edges_removeNodes, List.append_nil]
      have hout : ∀ id, g.among spared id = true → id ∉ _ := fun id hid hmem =>
        Bool.false_ne_true ((among_of_label hlabel (hids id hmem)).symm.trans hid)
      refine filter_between fun e _ hbetween => decide_eq_true ?_
      obtain ⟨hs, ht⟩ := among_of_between hbetween
      exact ⟨hout _ hs, hout _ ht⟩
  | dropLinks test =>
      refine ⟨[], ?_, nofun⟩
      rw [List.append_nil]
      refine filter_between fun e he hbetween => ?_
      have hl : e.label ≠ EdgeLabel.cloneOf := fun hl => Bool.false_ne_true
        ((hlinked _ _ (joined_iff.2 ⟨e, he, hl, rfl, rfl⟩)).symm.trans
          (among_of_between hbetween).1)
      simp [hl]

end Touch

/-! ## The changes of a mutation -/

/-- Several changes, one after another. -/
abbrev Touches (label : String) (codeList : Id) (cloned : Id → Prop) (spared : String → Bool) :
    Graph → Graph → Prop :=
  ReflTransGen (Touch label codeList cloned spared)

/-- The nodes of a list are rewritten, none of which is to be spared. -/
theorem Touch.of_list {ids : List Id} {f : Id → Properties → Properties}
    (h : Rewrites g g' fun x ps => if x ∈ ids then f x ps else ps)
    (hids : ∀ id ∈ ids, g.among spared id = false) : Touch label codeList cloned spared g g' := by
  refine .rewrite h fun id hid ps => if_neg fun hmem => ?_
  rw [hids id hmem] at hid
  cases hid

theorem touches_cloneNode (g : Graph) (source : Id) (codeList' : Id) (hasData : Bool) :
    Touches label codeList cloned spared g (g.cloneNode source label codeList' hasData) := by
  rcases g.cloneNode_cases source label codeList' hasData with
    ⟨-, heq⟩ | ⟨n, hn, ⟨clone, rest, hids, heq⟩ | ⟨v, rfl, hids, heq⟩⟩
  · rw [heq]
  · have hsource : g.nodes.contains source := Table.contains_iff.2 ⟨_, (node?_eq_some.1 hn).2⟩
    have hclone : g.Coded label n.cloneCode clone := mem_idsWithCode.1 (hids ▸ List.mem_cons_self)
    rw [heq]
    exact .single (.linkClone hclone.label hsource)
  · have hsource : g.nodes.contains source := Table.contains_iff.2 ⟨_, (node?_eq_some.1 hn).2⟩
    have hadd : Touch label codeList cloned spared g
        (g.addVertex ⟨label, cloneProperties n n.cloneCode codeList' hasData⟩).2 :=
      .addVertex rfl (codeIn_cloneProperties n _ codeList' hasData) (idsWithCode_eq_nil_iff.1 hids)
    rw [heq]
    exact .head hadd (.single (.linkClone (label?_addVertex_self g _) (contains_addVertex hsource)))

theorem touches_cloneNodes (g : Graph) (sources : List Id) (codeList' : Id) (hasData : Bool) :
    Touches label codeList cloned spared g (g.cloneNodes sources label codeList' hasData) :=
  List.foldlRecOn (motive := fun g' => Touches label codeList cloned spared g g') sources _ .refl
    fun g' hg source _ => hg.trans (touches_cloneNode g' source codeList' hasData)

theorem touches_linkParents (pairs : List (Id × Id)) (state : List Edge × Graph)
    (hpairs : ∀ e ∈ pairs, state.2.label? e.1 = some label ∧ state.2.label? e.2 = some label) :
    Touches label codeList cloned spared state.2 (linkParents state pairs).2 := by
  induction pairs generalizing state with
  | nil => exact .refl
  | cons pair rest ih =>
      obtain ⟨created, hcons⟩ := linkParents_cons state pair rest
      obtain ⟨hs, ht⟩ := hpairs pair List.mem_cons_self
      rw [hcons]
      refine .head (.linkParent hs ht) (ih (created, _) fun e he => ?_)
      simp only [label?_mergeEdge]
      exact hpairs e (List.mem_cons_of_mem _ he)

theorem touches_relate (g : Graph) (sources : List Id) :
    Touches label codeList cloned spared g (g.relate sources label).2 := by
  have hstep : ∀ (state : List Edge × Graph) (source : Id), Touches label codeList cloned spared
      state.2 (linkParents state (state.2.relatePairs label source)).2 := by
    intro state source
    refine touches_linkParents _ state ?_
    rintro ⟨a, b⟩ hab
    obtain ⟨t, -, hb, ha⟩ := mem_relatePairs.1 hab
    exact ⟨(mem_clonesOf.1 ha).2, (mem_clonesOf.1 hb).2⟩
  exact List.foldlRecOn (motive := fun state : List Edge × Graph =>
      Touches label codeList cloned spared g state.2) sources _ .refl
    fun state hstate source _ => hstate.trans (hstep state source)

/-- Places are given to nodes that clone edges leave, and no other node comes to be left by one. -/
theorem touches_copyOrders (ids : List Id) (g : Graph) (codeList' : Id)
    (hlinked : ∀ a s, g.Joined EdgeLabel.cloneOf a s → g.among spared a = false) :
    Touches label codeList cloned spared g
      (ids.foldl (fun g id => g.copyOrder codeList' id) g) := by
  induction ids generalizing g with
  | nil => exact .refl
  | cons id rest ih =>
      rw [List.foldl_cons]
      generalize hcopied : g.copyOrder codeList' id = g'
      unfold copyOrder at hcopied
      cases horder : g.orderOf? codeList' id with
      | none =>
          rw [horder] at hcopied
          exact hcopied ▸ ih g hlinked
      | some order =>
          rw [horder] at hcopied
          have hrw := setProperties_rewrites g (g.sources id EdgeLabel.cloneOf) order
            (by decide : Property.order ≠ Property.code)
          obtain rfl : g.setProperties (g.sources id EdgeLabel.cloneOf) Property.order order = g' :=
            hcopied
          refine .head (.of_list hrw fun a ha => hlinked a id (mem_sources.1 ha))
            (ih _ fun a s hlink => ?_)
          exact (among_congr (hrw.label a)).trans (hlinked a s (hrw.joined.1 hlink))

theorem touches_linkCode (g : Graph) {node : Id} (code : String) (hcloned : cloned node) :
    Touches label codeList cloned spared g (g.linkCode codeList node code) := by
  rcases g.linkCode_cases codeList node code with ⟨-, heq⟩ | ⟨n, hn, hnode, heq⟩
  · rw [heq]
  · obtain ⟨hl, hget⟩ := get?_of_codeNode? hn
    rw [heq]
    exact .single (.linkCode hnode hcloned (hl ▸ label_of_get? hget))

/-- The mutation is one that a build makes for the hierarchy with the label: it names no other
hierarchy, and where it does not name one it works on nodes that the build may touch. -/
def Befits (g : Graph) (label : String) (codeList : Id) (cloned : Id → Prop)
    (spared : String → Bool) (placing : Prop) : Mutation → Prop
  | .copyOrder _ _ => placing
  | .linkCode codeList' node _ => codeList' = codeList ∧ cloned node
  | .countChildrenOf ids => ∀ id ∈ ids, g.among spared id = false
  | m => WorksFor (· = label) m

/-- One mutation. -/
theorem touches_mutate (m : Mutation) (hlabel : spared label = false)
    (hout : g.OutOfReach label spared placing)
    (hm : g.Befits label codeList cloned spared placing m) :
    Touches label codeList cloned spared g (g.mutate m).2 := by
  have hown : ∀ id, g.label? id = some label → g.among spared id = false :=
    fun id hid => among_of_label hlabel hid
  cases m with
  | constrain key => exact .refl
  | cloneList key codeList' =>
      cases hm
      exact touches_cloneNodes g _ codeList' false
  | cloneSources key codeList' ids hasData =>
      cases hm
      exact touches_cloneNodes g ids codeList' hasData
  | relateList key codeList' =>
      cases hm
      exact touches_relate g _
  | relateSources key ids =>
      cases hm
      exact touches_relate g ids
  | copyOrder codeList' ids =>
      exact touches_copyOrders ids g codeList' (hout.linked hm)
  | linkCode codeList' node code =>
      obtain ⟨rfl, hcloned⟩ := hm
      exact touches_linkCode g code hcloned
  | unlinkClones key => exact .single (.dropLinks _)
  | unlinkSources ids => exact .single (.dropLinks _)
  | countChildren key =>
      cases hm
      exact .single (.of_list (countChildren_rewrites g _) fun id hid =>
        hown id (mem_idsWithLabel.1 hid))
  | countChildrenOf ids => exact .single (.of_list (countChildren_rewrites g ids) hm)
  | flagData key codes =>
      cases hm
      refine .single (.of_list (setProperties_rewrites g _ _ (by decide)) fun id hid => ?_)
      obtain ⟨c, -, hc⟩ := mem_idsWithCodeIn.1 hid
      exact hown id hc.label
  | markRemaining key =>
      cases hm
      refine .single (.of_list (setProperties_rewrites g _ _ (by decide)) fun id hid => ?_)
      have hflagged : ∀ a ∈ g.idsWithFlag (NodeLabel.hierarchy key) Property.hasData,
          g.label? a = some (NodeLabel.hierarchy key) := fun a ha =>
        (mem_idsWithFlag_iff.1 ha).elim fun ps h => label_of_get? h.1
      rcases List.mem_append.1 hid with hid | hid
      · exact hown id (hflagged id hid)
      · obtain ⟨a, ha, hchain⟩ := mem_ancestors.1 hid
        exact hout.above a id (hflagged a ha) hchain
  | dropUnmarked key =>
      cases hm
      refine .single (.removeNodes fun id hid => ?_)
      obtain ⟨n, hn, rfl⟩ := List.mem_map.1 hid
      obtain ⟨hl, hget⟩ := mem_nodesWithLabel.1 (List.mem_of_mem_filter hn)
      exact hl ▸ label_of_get? hget
  | clearMarks key =>
      cases hm
      exact .single (.of_list (dropProperties_rewrites g _ (by decide)) fun id hid =>
        hown id (mem_idsWithLabel.1 hid))

/-! ## What is kept -/

/-- Since the start nothing has happened to what is to be spared, but for links from nodes that have
been cloned to codes of the code list; and it is still out of reach. -/
structure Confined (start : Graph) (label : String) (codeList : Id) (cloned : Id → Prop)
    (spared : String → Bool) (placing : Prop) (g : Graph) : Prop where
  fresh : g.Fresh
  outOfReach : g.OutOfReach label spared placing
  nodes : ∀ id v, spared v.label = true →
    (g.nodes.get? id = some v ↔ start.nodes.get? id = some v)
  edges : placing → ∃ added,
    g.edges.filter (g.between spared) = start.edges.filter (start.between spared) ++ added ∧
      ∀ e ∈ added, e.label = EdgeLabel.hasCode ∧ cloned e.source ∧
        start.label? e.target = some (NodeLabel.code codeList)

namespace Confined

variable {start : Graph}

theorem refl (cloned : Id → Prop) (hfresh : start.Fresh)
    (hout : start.OutOfReach label spared placing) :
    Confined start label codeList cloned spared placing start :=
  ⟨hfresh, hout, fun _ _ _ => Iff.rfl, fun _ => ⟨[], (List.append_nil _).symm, nofun⟩⟩

theorem mono {cloned' : Id → Prop} (hcloned : ∀ s, cloned s → cloned' s)
    (h : Confined start label codeList cloned spared placing g) :
    Confined start label codeList cloned' spared placing g := by
  refine { h with edges := fun hplacing => ?_ }
  obtain ⟨added, hedges, hadded⟩ := h.edges hplacing
  refine ⟨added, hedges, fun e he => ?_⟩
  obtain ⟨hl, hsource, htarget⟩ := hadded e he
  exact ⟨hl, hcloned _ hsource, htarget⟩

theorem touch (hlabel : spared label = false)
    (h : Confined start label codeList cloned spared placing g)
    (ht : Touch label codeList cloned spared g g') :
    Confined start label codeList cloned spared placing g' := by
  have hnodes : ∀ id v, spared v.label = true →
      (g'.nodes.get? id = some v ↔ start.nodes.get? id = some v) :=
    fun id v hv => (ht.nodes hlabel h.fresh hv).trans (h.nodes id v hv)
  refine ⟨ht.change.fresh h.fresh, ht.outOfReach hlabel h.fresh h.outOfReach, hnodes,
    fun hplacing => ?_⟩
  obtain ⟨added, hedges, hadded⟩ := h.edges hplacing
  obtain ⟨new, hnewEdges, hnew⟩ := ht.edges hlabel h.fresh (h.outOfReach.linked hplacing)
  refine ⟨added ++ new, by rw [hnewEdges, hedges, List.append_assoc], fun e he => ?_⟩
  rcases List.mem_append.1 he with he | he
  · exact hadded e he
  · obtain ⟨hl, hsource, htarget⟩ := hnew e he
    refine ⟨hl, hsource, ?_⟩
    -- the code that the edge leads to is a node that is to be spared
    have hmem : e ∈ g'.edges.filter (g'.between spared) :=
      hnewEdges ▸ List.mem_append_right _ he
    obtain ⟨l, hlabel', hspared⟩ :=
      among_iff.1 (among_of_between (List.mem_filter.1 hmem).2).2
    obtain rfl := Option.some.inj (htarget.symm.trans hlabel')
    obtain ⟨ps, hps⟩ := label?_eq_some_iff.1 htarget
    exact label_of_get? ((hnodes e.target _ hspared).1 hps)

theorem touches (hlabel : spared label = false)
    (h : Confined start label codeList cloned spared placing g)
    (ht : Touches label codeList cloned spared g g') :
    Confined start label codeList cloned spared placing g' := by
  induction ht with
  | refl => exact h
  | tail _ ht ih => exact ih.touch hlabel ht

/-- A mutation that befits a build keeps what is to be spared. -/
theorem mutate (hlabel : spared label = false)
    (h : Confined start label codeList cloned spared placing g) {m : Mutation}
    (hm : g.Befits label codeList cloned spared placing m) :
    Confined start label codeList cloned spared placing (g.mutate m).2 :=
  h.touches hlabel (touches_mutate m hlabel h.outOfReach hm)

end Confined

end Graph
end InstanceHierarchy
