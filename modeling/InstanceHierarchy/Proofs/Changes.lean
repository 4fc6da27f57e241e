import InstanceHierarchy.Proofs.Cloning
import InstanceHierarchy.Proofs.Mirroring
import InstanceHierarchy.Proofs.Pruning
import InstanceHierarchy.Proofs.Tables

/-!
# What mutations are made of

Every mutation is made of changes of five kinds: properties are rewritten, an edge is merged, a node
is added, nodes are removed, clone edges are dropped.  Which nodes a change may touch is told by the
labels that it works for: nodes are added and removed under such labels alone, and but for links to
codes edges are merged only where they leave nodes with such labels.  Whatever the five kinds of
change keep, all mutations keep.
-/

namespace InstanceHierarchy
namespace Graph

open Relation

/-- The node has one of some labels. -/
def OneOf (own : String → Prop) (g : Graph) (id : Id) : Prop := ∃ K, own K ∧ g.label? id = some K

/-- One change, made for nodes with some labels. -/
inductive Change (own : String → Prop) (g : Graph) : Graph → Prop where
  | rewrite {g' : Graph} {F : Id → Properties → Properties} (h : Rewrites g g' F) : Change own g g'
  | mergeEdge (l : String) {s t : Id} (hs : g.nodes.contains s) (ht : g.nodes.contains t)
      (hown : l = EdgeLabel.hasCode ∨ g.OneOf own s) : Change own g (g.mergeEdge l s t).2
  | addVertex {v : Vertex} {c : String} (hown : own v.label) (hc : codeIn v.properties = some c)
      (hnew : ∀ a, ¬ g.Coded v.label c a) : Change own g (g.addVertex v).2
  | removeNodes {ids : List Id} (hids : ∀ id ∈ ids, g.OneOf own id) :
      Change own g (ids.foldl removeNode g)
  | dropLinks (test : StoredEdge → Bool) : Change own g (g.dropEdges EdgeLabel.cloneOf test)

/-- Several changes, one after another. -/
abbrev Changes (own : String → Prop) : Graph → Graph → Prop := ReflTransGen (Change own)

/-- A property that no change takes away is kept by several. -/
theorem Changes.kept {own : String → Prop} {keeps : Graph → Prop}
    (hkeeps : ∀ g g', Change own g g' → keeps g → keeps g') {g g' : Graph}
    (h : Changes own g g') (hg : keeps g) : keeps g' := by
  induction h with
  | refl => exact hg
  | tail _ hchange ih => exact hkeeps _ _ hchange ih

/-- No change gives ids back to the supply. -/
theorem Change.grows {own : String → Prop} {g g' : Graph} (h : Change own g g') : g.Grows g' := by
  cases h with
  | rewrite hrw => exact .of_eq hrw.supply
  | mergeEdge l => exact grows_mergeEdge g l _ _
  | addVertex => exact ⟨rfl, Nat.le_succ _⟩
  | removeNodes => exact .of_eq (supply_removeNodes g _)
  | dropLinks => exact .of_eq rfl

theorem joined_of_dropEdges {g : Graph} {dropped l : String} {test : StoredEdge → Bool} {a b : Id}
    (h : (g.dropEdges dropped test).Joined l a b) : g.Joined l a b := by
  have hsub : (g.dropEdges dropped test).edges.Sublist g.edges := List.filter_sublist
  exact Nat.lt_of_lt_of_le h hsub.countP_le

/-- Every change leaves the ids that are to be drawn new. -/
theorem Change.fresh {own : String → Prop} {g g' : Graph} (h : Change own g g') (hg : g.Fresh) :
    g'.Fresh := by
  have hgrows := h.grows
  cases h with
  | rewrite hrw => exact hrw.fresh hg
  | mergeEdge l hs ht =>
      obtain ⟨v, hv⟩ := Table.contains_iff.1 hs
      obtain ⟨w, hw⟩ := Table.contains_iff.1 ht
      exact hg.mergeEdge l hv hw
  | addVertex => exact hg.addVertex _
  | @removeNodes ids =>
      refine hg.of_grows hgrows (fun id _ hid => ?_) fun _ _ _ hj =>
        Or.inl (joined_removeNodes.1 hj).1
      rw [get?_removeNodes, hid]
      split <;> rfl
  | dropLinks test =>
      exact hg.of_grows hgrows (fun _ _ hid => hid) fun _ _ _ hj => Or.inl (joined_of_dropEdges hj)

/-- Nodes with other labels than those that are worked for are not added. -/
theorem Change.label {own : String → Prop} {g g' : Graph} {label : String} (h : Change own g g')
    (hlabel : ¬ own label) {id : Id} (hid : g'.label? id = some label) :
    g.label? id = some label := by
  cases h with
  | rewrite hrw => rwa [hrw.label] at hid
  | mergeEdge => rwa [label?_mergeEdge] at hid
  | @addVertex v c hown =>
      unfold label? at hid
      rw [get?_addVertex] at hid
      split at hid
      · obtain rfl := Option.some.inj hid
        exact absurd hown hlabel
      · exact hid
  | removeNodes => exact (label_removeNodes_iff.1 hid).1
  | dropLinks => exact hid

theorem Changes.label {own : String → Prop} {g g' : Graph} {label : String} (h : Changes own g g')
    (hlabel : ¬ own label) {id : Id} : g'.label? id = some label → g.label? id = some label := by
  induction h with
  | refl => exact fun hid => hid
  | tail _ hchange ih => exact fun hid => ih (hchange.label hlabel hid)

theorem Changes.grows {own : String → Prop} {g g' : Graph} (h : Changes own g g') : g.Grows g' :=
  Changes.kept (fun _ _ hchange hg => hg.trans hchange.grows) h (Grows.of_eq rfl)

variable {own : String → Prop} {g : Graph}

theorem contains_of_label {id : Id} {label : String} (h : g.label? id = some label) :
    g.nodes.contains id := by
  obtain ⟨ps, hps⟩ := label?_eq_some_iff.1 h
  exact Table.contains_iff.2 ⟨_, hps⟩

theorem OneOf.contains {id : Id} (h : g.OneOf own id) : g.nodes.contains id := by
  obtain ⟨K, -, hlabel⟩ := h
  exact contains_of_label hlabel

theorem label?_addVertex_self (g : Graph) (v : Vertex) :
    (g.addVertex v).2.label? (g.addVertex v).1 = some v.label := by
  unfold label?
  rw [get?_addVertex, if_pos rfl]
  rfl

theorem contains_addVertex {v : Vertex} {id : Id} (h : g.nodes.contains id) :
    (g.addVertex v).2.nodes.contains id := by
  obtain ⟨w, hw⟩ := Table.contains_iff.1 h
  rw [Table.contains_iff, get?_addVertex]
  split
  · exact ⟨v, rfl⟩
  · exact ⟨w, hw⟩

/-! ## The steps of mutations -/

/-- A clone is made only where no node of the hierarchy has the code. -/
theorem changes_cloneNode (g : Graph) (source : Id) {target : String} (codeList : Id)
    (hasData : Bool) (hown : own target) :
    Changes own g (g.cloneNode source target codeList hasData) := by
  rcases g.cloneNode_cases source target codeList hasData with
    ⟨-, heq⟩ | ⟨n, hn, ⟨clone, rest, hids, heq⟩ | ⟨v, rfl, hids, heq⟩⟩
  · rw [heq]
  · -- a node with the code is there already
    have hsource : g.nodes.contains source := Table.contains_iff.2 ⟨_, (node?_eq_some.1 hn).2⟩
    have hclone : g.Coded target n.cloneCode clone :=
      mem_idsWithCode.1 (hids ▸ List.mem_cons_self)
    rw [heq]
    exact .single (.mergeEdge _ (contains_of_label hclone.label) hsource
      (Or.inr ⟨target, hown, hclone.label⟩))
  · have hsource : g.nodes.contains source := Table.contains_iff.2 ⟨_, (node?_eq_some.1 hn).2⟩
    have hadd : Change own g
        (g.addVertex ⟨target, cloneProperties n n.cloneCode codeList hasData⟩).2 :=
      .addVertex hown (codeIn_cloneProperties n _ codeList hasData)
        (idsWithCode_eq_nil_iff.1 hids)
    have hlabel := label?_addVertex_self g ⟨target, cloneProperties n n.cloneCode codeList hasData⟩
    rw [heq]
    exact .head hadd (.single (.mergeEdge _ (contains_of_label hlabel)
      (contains_addVertex hsource) (Or.inr ⟨target, hown, hlabel⟩)))

theorem changes_cloneNodes (g : Graph) (sources : List Id) {target : String} (codeList : Id)
    (hasData : Bool) (hown : own target) :
    Changes own g (g.cloneNodes sources target codeList hasData) :=
  List.foldlRecOn (motive := fun g' => Changes own g g') sources _ .refl
    fun g' hg source _ => hg.trans (changes_cloneNode g' source codeList hasData hown)

/-- The pairs that are linked have the labels, and linking changes no nodes. -/
theorem changes_linkParents (pairs : List (Id × Id)) (state : List Edge × Graph)
    (hpairs : ∀ e ∈ pairs, state.2.OneOf own e.1 ∧ state.2.OneOf own e.2) :
    Changes own state.2 (linkParents state pairs).2 := by
  induction pairs generalizing state with
  | nil => exact .refl
  | cons pair rest ih =>
      obtain ⟨created, hcons⟩ := linkParents_cons state pair rest
      obtain ⟨hs, ht⟩ := hpairs pair List.mem_cons_self
      have hmerge : Change own state.2
          (state.2.mergeEdge EdgeLabel.hasParent pair.1 pair.2).2 :=
        .mergeEdge _ hs.contains ht.contains (Or.inr hs)
      rw [hcons]
      refine .head hmerge (ih (created, _) fun e he => ?_)
      unfold OneOf
      simp only [label?_mergeEdge]
      exact hpairs e (List.mem_cons_of_mem _ he)

theorem changes_relate (g : Graph) (sources : List Id) {target : String} (hown : own target) :
    Changes own g (g.relate sources target).2 := by
  have hstep : ∀ (state : List Edge × Graph) (source : Id), Changes own state.2
      (linkParents state (state.2.relatePairs target source)).2 := by
    intro state source
    refine changes_linkParents _ state ?_
    rintro ⟨a, b⟩ hab
    -- both are clones of the hierarchy, found by their label
    obtain ⟨t, -, hb, ha⟩ := mem_relatePairs.1 hab
    exact ⟨⟨target, hown, (mem_clonesOf.1 ha).2⟩, ⟨target, hown, (mem_clonesOf.1 hb).2⟩⟩
  exact List.foldlRecOn (motive := fun state : List Edge × Graph => Changes own g state.2) sources
    _ .refl fun state hstate source _ => hstate.trans (hstep state source)

theorem changes_copyOrder (g : Graph) (codeList source : Id) :
    Changes own g (g.copyOrder codeList source) := by
  unfold copyOrder
  cases g.orderOf? codeList source with
  | none => exact .refl
  | some order => exact .single (.rewrite (setProperties_rewrites g _ order (by decide)))

theorem changes_linkCode (g : Graph) (codeList node : Id) (code : String) :
    Changes own g (g.linkCode codeList node code) := by
  rcases g.linkCode_cases codeList node code with ⟨-, heq⟩ | ⟨n, hn, hnode, heq⟩
  · rw [heq]
  · have hcode : g.nodes.contains n.id := Table.contains_iff.2 ⟨_, (get?_of_codeNode? hn).2⟩
    rw [heq]
    exact .single (.mergeEdge _ hnode hcode (Or.inl rfl))

/-- The hierarchy that a mutation names, if it names one, has one of the labels. -/
def WorksFor (own : String → Prop) : Mutation → Prop
  | .constrain key | .cloneList key _ | .cloneSources key _ _ _ | .relateList key _
  | .relateSources key _ | .unlinkClones key | .countChildren key | .flagData key _
  | .markRemaining key | .dropUnmarked key | .clearMarks key => own (NodeLabel.hierarchy key)
  | .copyOrder _ _ | .linkCode _ _ _ | .unlinkSources _ | .countChildrenOf _ => True

/-- One mutation. -/
theorem changes_mutate (g : Graph) (m : Mutation) (hown : WorksFor own m) :
    Changes own g (g.mutate m).2 := by
  cases m with
  | constrain key => exact .refl
  | cloneList key codeList => exact changes_cloneNodes g _ codeList false hown
  | cloneSources key codeList ids hasData => exact changes_cloneNodes g ids codeList hasData hown
  | relateList key codeList => exact changes_relate g _ hown
  | relateSources key ids => exact changes_relate g ids hown
  | copyOrder codeList ids =>
      exact List.foldlRecOn (motive := fun g' => Changes own g g') ids _ .refl
        fun g' hg id _ => hg.trans (changes_copyOrder g' codeList id)
  | linkCode codeList node code => exact changes_linkCode g codeList node code
  | unlinkClones key => exact .single (.dropLinks _)
  | unlinkSources ids => exact .single (.dropLinks _)
  | countChildren key => exact .single (.rewrite (countChildren_rewrites g _))
  | countChildrenOf ids => exact .single (.rewrite (countChildren_rewrites g ids))
  | flagData key codes => exact .single (.rewrite (setProperties_rewrites g _ _ (by decide)))
  | markRemaining key => exact .single (.rewrite (setProperties_rewrites g _ _ (by decide)))
  | dropUnmarked key =>
      refine .single (.removeNodes fun id hid => ⟨_, hown, ?_⟩)
      obtain ⟨n, hn, rfl⟩ := List.mem_map.1 hid
      obtain ⟨hlabel, hget⟩ := mem_nodesWithLabel.1 (List.mem_filter.1 hn).1
      exact hlabel ▸ label_of_get? hget
  | clearMarks key => exact .single (.rewrite (dropProperties_rewrites g _ (by decide)))

theorem worksFor_any (m : Mutation) : WorksFor (fun _ => True) m := by
  cases m <;> exact trivial

/-- No mutation gives ids back to the supply. -/
theorem grows_mutate (g : Graph) (m : Mutation) : g.Grows (g.mutate m).2 :=
  (changes_mutate g m (worksFor_any m)).grows

end Graph
end InstanceHierarchy
