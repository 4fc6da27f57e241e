import InstanceHierarchy.Proofs.Integrity
import InstanceHierarchy.Proofs.Placing

/-!
# Carrying out a mutation once more

A mutation that is carried out again finds everything done and leaves the graph as it is: the nodes
with their properties, the edges in their order and what is left of the supply of ids.  So it may be
sent again when it is not known whether it was carried out.  The graph may be of any shape; codes may
repeat, edges may dangle and parent edges may run in circles.

Properties are written with the values that they have, and what was dropped or removed is gone.
Cloning and repeating parent edges go source by source: the work on one source establishes something
that the work on the others keeps, and where it holds nothing is left to do.
-/

namespace InstanceHierarchy

/-- The vertex with a place in the code list, if one is given. -/
def Vertex.placed (v : Vertex) : Option Json → Vertex
  | some order => v.set Property.order order
  | none => v

/-- A later place is written over an earlier one. -/
theorem Vertex.placed_placed (v : Vertex) (a b : Option Json) :
    (v.placed a).placed b = v.placed (b.or a) := by
  cases b with
  | none => rfl
  | some order =>
      cases a with
      | none => rfl
      | some earlier =>
          show (v.set Property.order earlier).set Property.order order = v.set Property.order order
          unfold Vertex.set
          congr 1
          apply Table.ext_get?
          intro k
          simp only [Table.get?_insert]
          split <;> rfl

namespace Graph

variable {g g' g'' : Graph}

/-- A graph is made of its nodes, its edges and its supply. -/
theorem eq_of_same (hnodes : ∀ x, g'.nodes.get? x = g.nodes.get? x) (hedges : g'.edges = g.edges)
    (hsupply : g'.supply = g.supply) : g' = g := by
  cases g
  cases g'
  obtain rfl := Table.ext_get? hnodes
  obtain rfl := hedges
  obtain rfl := hsupply
  rfl

/-! ## Writing properties -/

/-- Rewriting nodes that were rewritten before changes nothing, if rewriting a node twice is
rewriting it once. -/
theorem Rewrites.again {f : Id → Properties → Properties} {ids ids' : List Id}
    (h : Rewrites g g' fun x ps => if x ∈ ids then f x ps else ps)
    (h' : Rewrites g' g'' fun x ps => if x ∈ ids' then f x ps else ps) (hids : ids' ⊆ ids)
    (hself : ∀ x ps, f x (f x ps) = f x ps) : g'' = g' := by
  refine eq_of_same (fun x => ?_) h'.edges h'.supply
  rw [h'.nodes, h.nodes]
  cases g.nodes.get? x with
  | none => rfl
  | some v =>
      by_cases hx : x ∈ ids'
      · simp [hx, hids hx, hself]
      · simp [hx]

theorem setProperties_again {ids ids' : List Id} {key : String} (value : Json)
    (hkey : key ≠ Property.code) (hids : ids' ⊆ ids) :
    (g.setProperties ids key value).setProperties ids' key value =
      g.setProperties ids key value :=
  (setProperties_rewrites g ids value hkey).again (f := fun _ ps => ps.insert key value)
    (setProperties_rewrites _ ids' value hkey) hids fun _ ps => ps.insert_insert_self key value

/-- Counting writes no edges, so the numbers are the same again. -/
theorem countChildren_again {ids ids' : List Id} (hids : ids' ⊆ ids) :
    (g.countChildren ids).countChildren ids' = g.countChildren ids := by
  have hcount : ∀ x, (g.countChildren ids).childCount x = g.childCount x := by
    intro x
    unfold childCount sources
    rw [edges_countChildren]
  have hagain := countChildren_rewrites (g.countChildren ids) ids'
  simp only [hcount] at hagain
  exact (countChildren_rewrites g ids).again
    (f := fun x ps => ps.insert Property.numberOfChildren (g.childCount x)) hagain hids
    fun _ ps => ps.insert_insert_self _ _

theorem dropProperties_again {ids ids' : List Id} {key : String} (hkey : key ≠ Property.code)
    (hids : ids' ⊆ ids) :
    ids'.foldl (fun g id => g.dropProperty id key)
        (ids.foldl (fun g id => g.dropProperty id key) g) =
      ids.foldl (fun g id => g.dropProperty id key) g :=
  (dropProperties_rewrites g ids hkey).again (f := fun _ ps => ps.erase key)
    (dropProperties_rewrites _ ids' hkey) hids fun _ ps => ps.erase_erase_self key

/-! ### Which nodes are written to -/

section Selection

variable {F : Id → Properties → Properties}

theorem Rewrites.idsWithLabel (h : Rewrites g g' F) (label : String) :
    g'.idsWithLabel label ⊆ g.idsWithLabel label := by
  intro id hid
  rw [mem_idsWithLabel] at hid ⊢
  rw [← hid, h.label]

theorem Rewrites.idsWithCodeIn (h : Rewrites g g' F) (label : String) (codes : List String) :
    g'.idsWithCodeIn label codes ⊆ g.idsWithCodeIn label codes := by
  intro id hid
  rw [mem_idsWithCodeIn] at hid ⊢
  obtain ⟨code, hmem, hcoded⟩ := hid
  exact ⟨code, hmem, h.coded.1 hcoded⟩

theorem Rewrites.idsWithFlag (h : Rewrites g g' F) (label flag : String)
    (hF : ∀ x ps, (F x ps).get? flag = ps.get? flag) :
    g'.idsWithFlag label flag ⊆ g.idsWithFlag label flag := by
  intro id hid
  rw [mem_idsWithFlag_iff] at hid ⊢
  obtain ⟨ps', hps', hflag⟩ := hid
  obtain ⟨ps, hps, rfl⟩ := h.get?_iff.1 hps'
  exact ⟨ps, hps, hF id ps ▸ hflag⟩

/-- A larger start leads to more ancestors, and no edge is touched. -/
theorem Rewrites.ancestors (h : Rewrites g g' F) {start start' : List Id}
    (hstart : start' ⊆ start) : g'.ancestors start' ⊆ g.ancestors start := by
  have hup : g'.Up = g.Up := by
    funext a b
    exact propext h.joined
  intro id hid
  rw [mem_ancestors] at hid ⊢
  rw [hup] at hid
  obtain ⟨s, hs, hchain⟩ := hid
  exact ⟨s, hstart hs, hchain⟩

end Selection

/-- Whether a node has data does not depend on its mark, so the same nodes are marked again. -/
theorem marked_again (label : String) {ids : List Id} (value : Json)
    (h : g' = g.setProperties ids Property.remain value) :
    g'.idsWithFlag label Property.hasData ++ g'.ancestors (g'.idsWithFlag label Property.hasData) ⊆
      g.idsWithFlag label Property.hasData ++
        g.ancestors (g.idsWithFlag label Property.hasData) := by
  subst h
  have hkey : Property.remain ≠ Property.code := by decide
  have hrw := setProperties_rewrites g ids value hkey
  have hflag := hrw.idsWithFlag label Property.hasData fun x ps => by
    split
    · rw [Table.get?_insert, if_neg (by decide)]
    · rfl
  exact List.append_subset.2 ⟨fun id hid => List.mem_append_left _ (hflag hid),
    fun id hid => List.mem_append_right _ (hrw.ancestors hflag hid)⟩

/-! ### Places -/

/-- The place that a node gets from a source it is linked to. -/
def placeFrom (g : Graph) (codeList x source : Id) : Option Json :=
  if x ∈ g.sources source EdgeLabel.cloneOf then g.orderOf? codeList source else none

/-- The place that a node gets from some sources: the last one that it is given stays. -/
def lastPlace (g : Graph) (codeList x : Id) : List Id → Option Json
  | [] => none
  | source :: rest => (g.lastPlace codeList x rest).or (g.placeFrom codeList x source)

theorem get?_copyOrder (g : Graph) (codeList source x : Id) :
    (g.copyOrder codeList source).nodes.get? x =
      (g.nodes.get? x).map (·.placed (g.placeFrom codeList x source)) := by
  unfold copyOrder placeFrom
  cases g.orderOf? codeList source with
  | none => simp [Vertex.placed]
  | some order =>
      show (g.setProperties _ _ _).nodes.get? x = _
      rw [get?_setProperties]
      split <;> simp [Vertex.placed]

/-- Giving places changes none of those that are still to be given. -/
theorem lastPlace_copyOrder (g : Graph) (codeList source x : Id) (ids : List Id) :
    (g.copyOrder codeList source).lastPlace codeList x ids = g.lastPlace codeList x ids := by
  induction ids with
  | nil => rfl
  | cons s rest ih =>
      unfold lastPlace placeFrom sources
      rw [ih, edges_copyOrder, orderOf?_copyOrder]

theorem get?_copyOrders (g : Graph) (codeList : Id) (ids : List Id) (x : Id) :
    (ids.foldl (fun g id => g.copyOrder codeList id) g).nodes.get? x =
      (g.nodes.get? x).map (·.placed (g.lastPlace codeList x ids)) := by
  induction ids generalizing g with
  | nil => simp [lastPlace, Vertex.placed]
  | cons source rest ih =>
      rw [List.foldl_cons, ih, get?_copyOrder, lastPlace_copyOrder, Option.map_map, lastPlace]
      congr 1
      funext v
      exact v.placed_placed _ _

theorem supply_copyOrder (g : Graph) (codeList source : Id) :
    (g.copyOrder codeList source).supply = g.supply := by
  unfold copyOrder
  cases g.orderOf? codeList source with
  | none => rfl
  | some order => exact supply_setProperties g _ _ order

theorem supply_copyOrders (g : Graph) (codeList : Id) (ids : List Id) :
    (ids.foldl (fun g id => g.copyOrder codeList id) g).supply = g.supply :=
  foldl_keeps supply _ (fun g id => supply_copyOrder g codeList id) ids g

theorem copyOrder_again (g : Graph) (codeList : Id) (ids : List Id) :
    ids.foldl (fun g id => g.copyOrder codeList id)
        (ids.foldl (fun g id => g.copyOrder codeList id) g) =
      ids.foldl (fun g id => g.copyOrder codeList id) g := by
  refine eq_of_same (fun x => ?_) ?_ ?_
  · have hlast := foldl_keeps (fun g => g.lastPlace codeList x ids)
      (fun g id => g.copyOrder codeList id)
      (fun g id => lastPlace_copyOrder g codeList id x ids) ids g
    rw [get?_copyOrders, get?_copyOrders, hlast]
    cases g.nodes.get? x with
    | none => rfl
    | some v =>
        simp only [Option.map_some, Vertex.placed_placed]
        cases g.lastPlace codeList x ids <;> rfl
  · exact edges_mutate_copyOrder _ codeList ids
  · exact supply_copyOrders _ codeList ids

/-! ## Removing nodes and edges -/

theorem dropEdges_again (g : Graph) (label : String) (test : StoredEdge → Bool) :
    (g.dropEdges label test).dropEdges label test = g.dropEdges label test := by
  unfold dropEdges
  simp

/-- What is left of a hierarchy is marked. -/
theorem unmarkedIds_removeNodes (g : Graph) (label : String) :
    ((g.unmarkedIds label).foldl removeNode g).unmarkedIds label = [] := by
  refine List.eq_nil_iff_forall_not_mem.2 fun id hid => ?_
  obtain ⟨ps, hps, hmark⟩ := mem_unmarkedIds.1 hid
  obtain ⟨hps, hout⟩ := get?_removeNodes_iff.1 hps
  exact hout (mem_unmarkedIds.2 ⟨ps, hps, hmark⟩)

/-! ## Merging edges -/

theorem mergeEdge_again (g : Graph) (label : String) (a b : Id) :
    ((g.mergeEdge label a b).2.mergeEdge label a b).2 = (g.mergeEdge label a b).2 := by
  have hjoined : (g.mergeEdge label a b).2.Joined label a b :=
    joined_mergeEdge.2 (Or.inr ⟨rfl, rfl, rfl⟩)
  rw [mergeEdge_of_joined hjoined]

/-- The code that a node is linked to is found among the nodes, which a link does not change. -/
theorem linkCode_again (g : Graph) (codeList node : Id) (code : String) :
    (g.linkCode codeList node code).linkCode codeList node code =
      g.linkCode codeList node code := by
  rcases g.linkCode_cases codeList node code with ⟨-, heq⟩ | ⟨n, hn, -, heq⟩
  · rw [heq, heq]
  · have hnodes := nodes_mergeEdge g EdgeLabel.hasCode node n.id
    rw [heq]
    rcases (g.mergeEdge EdgeLabel.hasCode node n.id).2.linkCode_cases codeList node code with
      ⟨-, hagain⟩ | ⟨n', hn', -, hagain⟩
    · exact hagain
    · rw [codeNode?_of_nodes hnodes, hn] at hn'
      obtain rfl := Option.some.inj hn'
      rw [hagain, mergeEdge_again]

/-! ## Cloning -/

/-- A source that is not there, or whose clone is there and linked to it. -/
def Provided (g : Graph) (target : String) (source : Id) : Prop :=
  ∀ n, g.node? source = some n → ∃ clone rest,
    g.idsWithCode target n.cloneCode = clone :: rest ∧ g.Joined EdgeLabel.cloneOf clone source

/-- Cloning a source that is provided for changes nothing. -/
theorem Provided.cloneNode_eq {target : String} {source : Id} (h : g.Provided target source)
    (codeList : Id) (hasData : Bool) : g.cloneNode source target codeList hasData = g := by
  unfold cloneNode
  cases hn : g.node? source with
  | none => rfl
  | some n =>
      obtain ⟨clone, rest, hids, hjoined⟩ := h n hn
      have hcode : (n.text? Property.code).getD "" = n.cloneCode := rfl
      simp only [hcode, hids, mergeEdge_of_joined hjoined]

theorem Provided.mergeEdge {target : String} {source : Id} (h : g.Provided target source)
    (label : String) (a b : Id) : (g.mergeEdge label a b).2.Provided target source := by
  intro n hn
  rw [node?_mergeEdge] at hn
  obtain ⟨clone, rest, hids, hjoined⟩ := h n hn
  exact ⟨clone, rest, (idsWithCode_mergeEdge g label a b _ _).trans hids,
    joined_mergeEdge.2 (Or.inl hjoined)⟩

/-- A new node with a code that no node of the hierarchy had does not come before the clone of a
source that is provided for. -/
theorem Provided.addVertex {target : String} {source : Id} {v : Vertex} {code : String}
    (h : g.Provided target source) (hfresh : g.Fresh) (hsource : ¬ g.Future source)
    (hcode : codeIn v.properties = some code) (hnew : g.idsWithCode v.label code = []) :
    (g.addVertex v).2.Provided target source := by
  intro n hn
  rw [node?_addVertex hsource] at hn
  obtain ⟨clone, rest, hids, hjoined⟩ := h n hn
  refine ⟨clone, rest, ?_, hjoined⟩
  rw [← hids]
  refine idsWithCode_congr fun id w hlabel hw => ?_
  rw [get?_addVertex]
  split
  · rename_i hid
    subst hid
    rw [hfresh.unstored _ (future_addVertex g v)]
    -- the new node would have the code of the source, but none had it before
    refine iff_of_false (fun heq => ?_) (by simp)
    obtain rfl := Option.some.inj heq
    rw [hcode] at hw
    obtain rfl := Option.some.inj hw
    rw [← hlabel, hnew] at hids
    cases hids
  · rfl

/-- A new node is the only one with its code, if none had it before. -/
theorem idsWithCode_addVertex {v : Vertex} {code : String} (hfresh : g.Fresh)
    (hcode : codeIn v.properties = some code) (hnew : g.idsWithCode v.label code = []) :
    ∃ rest, (g.addVertex v).2.idsWithCode v.label code = (g.addVertex v).1 :: rest := by
  have hmem : (g.addVertex v).1 ∈ (g.addVertex v).2.idsWithCode v.label code :=
    mem_idsWithCode.2 ((coded_addVertex hfresh).2 (Or.inr ⟨rfl, rfl, hcode⟩))
  cases hids : (g.addVertex v).2.idsWithCode v.label code with
  | nil =>
      rw [hids] at hmem
      cases hmem
  | cons clone rest =>
      have hclone : clone ∈ (g.addVertex v).2.idsWithCode v.label code :=
        hids ▸ List.mem_cons_self
      rcases (coded_addVertex hfresh).1 (mem_idsWithCode.1 hclone) with hold | ⟨rfl, -, -⟩
      · exact absurd hold (idsWithCode_eq_nil_iff.1 hnew clone)
      · exact ⟨rest, rfl⟩

section Clones

variable (target : String) (codeList : Id) (hasData : Bool)

/-- Cloning a source provides for it. -/
theorem provided_cloneNode (hfresh : g.Fresh) {source : Id} (hsource : ¬ g.Future source) :
    (g.cloneNode source target codeList hasData).Provided target source := by
  intro m hm
  rcases g.cloneNode_cases source target codeList hasData with
    ⟨hn, heq⟩ | ⟨n, hn, ⟨clone, rest, hids, heq⟩ | ⟨v, rfl, hids, heq⟩⟩
  · rw [heq, hn] at hm
    cases hm
  · rw [heq, node?_mergeEdge, hn] at hm
    obtain rfl := Option.some.inj hm
    rw [heq, idsWithCode_mergeEdge]
    exact ⟨clone, rest, hids, joined_mergeEdge.2 (Or.inr ⟨rfl, rfl, rfl⟩)⟩
  · rw [heq, node?_mergeEdge, node?_addVertex hsource, hn] at hm
    obtain rfl := Option.some.inj hm
    rw [heq, idsWithCode_mergeEdge]
    obtain ⟨rest, hone⟩ := idsWithCode_addVertex hfresh
      (v := ⟨target, cloneProperties n n.cloneCode codeList hasData⟩)
      (codeIn_cloneProperties n _ codeList hasData) hids
    exact ⟨_, rest, hone, joined_mergeEdge.2 (Or.inr ⟨rfl, rfl, rfl⟩)⟩

/-- Cloning another source leaves a source provided for. -/
theorem Provided.cloneNode {source : Id} (h : g.Provided target source) (hfresh : g.Fresh)
    (hsource : ¬ g.Future source) (other : Id) :
    (g.cloneNode other target codeList hasData).Provided target source := by
  rcases g.cloneNode_cases other target codeList hasData with
    ⟨-, heq⟩ | ⟨n, -, ⟨clone, rest, -, heq⟩ | ⟨v, rfl, hids, heq⟩⟩
  · rw [heq]
    exact h
  · rw [heq]
    exact h.mergeEdge EdgeLabel.cloneOf clone other
  · rw [heq]
    exact (h.addVertex hfresh hsource (codeIn_cloneProperties n _ codeList hasData) hids).mergeEdge
      EdgeLabel.cloneOf _ other

theorem cloneNodes_cons (g : Graph) (source : Id) (rest : List Id) :
    g.cloneNodes (source :: rest) target codeList hasData =
      (g.cloneNode source target codeList hasData).cloneNodes rest target codeList hasData := rfl

/-- Cloning a source leaves fresh what is fresh, and draws nothing that was drawn. -/
theorem fresh_cloneNode (hfresh : g.Fresh) (source : Id) :
    (g.cloneNode source target codeList hasData).Fresh ∧
      g.Grows (g.cloneNode source target codeList hasData) := by
  have hchanges : Changes (fun _ => True) g (g.cloneNode source target codeList hasData) :=
    changes_cloneNode g source codeList hasData trivial
  exact ⟨hchanges.kept (fun _ _ hchange => hchange.fresh) hfresh, hchanges.grows⟩

theorem Provided.cloneNodes {source : Id} (h : g.Provided target source) (hfresh : g.Fresh)
    (hsource : ¬ g.Future source) (ids : List Id) :
    (g.cloneNodes ids target codeList hasData).Provided target source := by
  induction ids generalizing g with
  | nil => exact h
  | cons id rest ih =>
      obtain ⟨hfresh', hgrows⟩ := fresh_cloneNode target codeList hasData hfresh id
      rw [cloneNodes_cons]
      exact ih (h.cloneNode target codeList hasData hfresh hsource id) hfresh'
        fun hfuture => hsource (hgrows.future hfuture)

/-- Cloning several sources provides for them all. -/
theorem provided_cloneNodes (hfresh : g.Fresh) {ids : List Id} (hids : ∀ id ∈ ids, ¬ g.Future id) :
    ∀ id ∈ ids, (g.cloneNodes ids target codeList hasData).Provided target id := by
  induction ids generalizing g with
  | nil => simp
  | cons first rest ih =>
      obtain ⟨hfresh', hgrows⟩ := fresh_cloneNode target codeList hasData hfresh first
      have hids' : ∀ id ∈ first :: rest,
          ¬ (g.cloneNode first target codeList hasData).Future id :=
        fun id hid hfuture => hids id hid (hgrows.future hfuture)
      rw [cloneNodes_cons]
      intro id hid
      rcases List.mem_cons.1 hid with rfl | hid
      · have hprovided := provided_cloneNode target codeList hasData hfresh
          (hids id List.mem_cons_self)
        exact hprovided.cloneNodes target codeList hasData hfresh' (hids' id List.mem_cons_self) rest
      · exact ih hfresh' (fun id hid => hids' id (List.mem_cons_of_mem first hid)) id hid

theorem cloneNodes_of_provided {ids : List Id} (h : ∀ id ∈ ids, g.Provided target id) :
    g.cloneNodes ids target codeList hasData = g := by
  induction ids with
  | nil => rfl
  | cons first rest ih =>
      rw [cloneNodes_cons, (h first List.mem_cons_self).cloneNode_eq]
      exact ih fun id hid => h id (List.mem_cons_of_mem first hid)

theorem cloneNodes_again (hfresh : g.Fresh) {ids ids' : List Id}
    (hids : ∀ id ∈ ids, ¬ g.Future id) (hsub : ids' ⊆ ids) :
    (g.cloneNodes ids target codeList hasData).cloneNodes ids' target codeList hasData =
      g.cloneNodes ids target codeList hasData :=
  cloneNodes_of_provided target codeList hasData fun id hid =>
    provided_cloneNodes target codeList hasData hfresh hids id (hsub hid)

end Clones

/-! ## Repeating parent edges -/

/-- Nodes and links stay as they are, and parent edges are added that leave nodes with a label. -/
structure MoreParents (target : String) (g g' : Graph) : Prop where
  nodes : g'.nodes = g.nodes
  cloned : ∀ a s, g'.Joined EdgeLabel.cloneOf a s ↔ g.Joined EdgeLabel.cloneOf a s
  up : ∀ a b, g.Up a b → g'.Up a b
  outside : ∀ a b, g'.Up a b → g.Up a b ∨ g.label? a = some target

/-- Every parent edge of a source is repeated between the clones. -/
def Repeated (g : Graph) (target : String) (source : Id) : Prop :=
  ∀ pair ∈ g.relatePairs target source, g.Up pair.1 pair.2

section Parents

variable {target : String} {source : Id}

theorem MoreParents.refl (target : String) (g : Graph) : MoreParents target g g :=
  ⟨rfl, fun _ _ => Iff.rfl, fun _ _ h => h, fun _ _ h => Or.inl h⟩

theorem MoreParents.label (h : MoreParents target g g') (id : Id) : g'.label? id = g.label? id := by
  unfold label?
  rw [h.nodes]

theorem MoreParents.trans (h : MoreParents target g g') (h' : MoreParents target g' g'') :
    MoreParents target g g'' := by
  refine ⟨h'.nodes.trans h.nodes, fun a s => (h'.cloned a s).trans (h.cloned a s),
    fun a b hup => h'.up a b (h.up a b hup), fun a b hup => ?_⟩
  rcases h'.outside a b hup with hup | hlabel
  · exact h.outside a b hup
  · exact Or.inr ((h.label a).symm.trans hlabel)

theorem MoreParents.mem_clonesOf (h : MoreParents target g g') {a : Id} :
    a ∈ g'.clonesOf source target ↔ a ∈ g.clonesOf source target := by
  rw [Graph.mem_clonesOf, Graph.mem_clonesOf, h.cloned, h.label]

/-- A source outside of the hierarchy keeps its parent edges, so it asks for the same pairs. -/
theorem MoreParents.relatePairs (h : MoreParents target g g')
    (hsource : g.label? source ≠ some target) :
    g'.relatePairs target source ⊆ g.relatePairs target source := by
  rintro ⟨a, b⟩ hpair
  obtain ⟨t, hup, hb, ha⟩ := mem_relatePairs.1 hpair
  have hold : g.Up source t := (h.outside source t hup).resolve_right hsource
  exact mem_relatePairs.2 ⟨t, hold, h.mem_clonesOf.1 hb, h.mem_clonesOf.1 ha⟩

theorem Repeated.more (h : g.Repeated target source) (hmore : MoreParents target g g')
    (hsource : g.label? source ≠ some target) : g'.Repeated target source :=
  fun pair hpair => hmore.up pair.1 pair.2 (h pair (hmore.relatePairs hsource hpair))

/-- The pairs of a source join clones, which have the label. -/
theorem moreParents_linkParents (target : String) (source : Id) (state : List Edge × Graph) :
    MoreParents target state.2 (linkParents state (state.2.relatePairs target source)).2 := by
  refine ⟨nodes_linkParents _ state, fun a s => cloned_linkParents,
    fun a b hup => up_linkParents.2 (Or.inl hup), fun a b hup => ?_⟩
  refine (up_linkParents.1 hup).imp_right fun hpair => ?_
  obtain ⟨t, -, -, ha⟩ := mem_relatePairs.1 hpair
  exact (Graph.mem_clonesOf.1 ha).2

theorem repeated_linkParents (state : List Edge × Graph)
    (hsource : state.2.label? source ≠ some target) :
    (linkParents state (state.2.relatePairs target source)).2.Repeated target source := by
  intro pair hpair
  have hold := (moreParents_linkParents target source state).relatePairs hsource hpair
  exact up_linkParents.2 (Or.inr hold)

theorem linkParents_of_up {pairs : List (Id × Id)} {state : List Edge × Graph}
    (h : ∀ pair ∈ pairs, state.2.Up pair.1 pair.2) : linkParents state pairs = state := by
  induction pairs with
  | nil => rfl
  | cons pair rest ih =>
      have hstep : linkParents state (pair :: rest) = linkParents state rest := by
        have hmerge := mergeEdge_of_joined (h pair List.mem_cons_self)
        unfold linkParents
        simp [hmerge]
      rw [hstep]
      exact ih fun pair hpair => h pair (List.mem_cons_of_mem _ hpair)

/-- The work on several sources, from a graph and the edges created before. -/
def relateFrom (target : String) (sources : List Id) (state : List Edge × Graph) :
    List Edge × Graph :=
  sources.foldl (fun state source => linkParents state (state.2.relatePairs target source)) state

theorem relateFrom_cons (first : Id) (rest : List Id) (state : List Edge × Graph) :
    relateFrom target (first :: rest) state =
      relateFrom target rest (linkParents state (state.2.relatePairs target first)) := rfl

theorem moreParents_relateFrom (sources : List Id) (state : List Edge × Graph) :
    MoreParents target state.2 (relateFrom target sources state).2 := by
  induction sources generalizing state with
  | nil => exact .refl target state.2
  | cons first rest ih =>
      rw [relateFrom_cons]
      exact (moreParents_linkParents target first state).trans (ih _)

/-- The work on the other sources keeps what the work on a source achieved. -/
theorem repeated_relateFrom {sources : List Id} (state : List Edge × Graph)
    (hsources : ∀ id ∈ sources, state.2.label? id ≠ some target) :
    ∀ id ∈ sources, (relateFrom target sources state).2.Repeated target id := by
  induction sources generalizing state with
  | nil => simp
  | cons first rest ih =>
      have hmore := moreParents_linkParents target first state
      have hsources' : ∀ id ∈ first :: rest,
          (linkParents state (state.2.relatePairs target first)).2.label? id ≠ some target := by
        intro id hid
        rw [hmore.label]
        exact hsources id hid
      rw [relateFrom_cons]
      intro id hid
      rcases List.mem_cons.1 hid with rfl | hid
      · have hrepeated := repeated_linkParents state (hsources id List.mem_cons_self)
        exact hrepeated.more (moreParents_relateFrom rest _) (hsources' id List.mem_cons_self)
      · exact ih _ (fun id hid => hsources' id (List.mem_cons_of_mem first hid)) id hid

theorem relateFrom_of_repeated {sources : List Id} {state : List Edge × Graph}
    (h : ∀ id ∈ sources, state.2.Repeated target id) :
    relateFrom target sources state = state := by
  induction sources with
  | nil => rfl
  | cons first rest ih =>
      rw [relateFrom_cons, linkParents_of_up (h first List.mem_cons_self)]
      exact ih fun id hid => h id (List.mem_cons_of_mem first hid)

/-- No edge is created when the parent edges are repeated once more. -/
theorem relate_again {sources sources' : List Id}
    (hsources : ∀ id ∈ sources, g.label? id ≠ some target) (hsub : sources' ⊆ sources) :
    (g.relate sources target).2.relate sources' target = ([], (g.relate sources target).2) := by
  have hrepeated := repeated_relateFrom ([], g) hsources
  exact relateFrom_of_repeated fun id hid => hrepeated id (hsub hid)

end Parents

/-! ## All mutations -/

/-- What a mutation is given is sensible: the ids of sources to be cloned are not ids that are drawn
later on for new nodes, and sources whose parent edges are repeated are not nodes of the hierarchy
themselves. -/
def Sensible (g : Graph) : Mutation → Prop
  | .cloneSources _ _ ids _ => ∀ id ∈ ids, ¬ g.Future id
  | .relateSources key ids => ∀ id ∈ ids, g.label? id ≠ some (NodeLabel.hierarchy key)
  | _ => True

/-- Work on a hierarchy makes no generic nodes. -/
theorem Changes.generic {key : HierarchyKey} (codeList : Id)
    (h : Changes (fun K => K = NodeLabel.hierarchy key) g g') :
    g'.idsWithLabel (NodeLabel.generic codeList) ⊆ g.idsWithLabel (NodeLabel.generic codeList) := by
  intro id hid
  rw [mem_idsWithLabel] at hid ⊢
  exact h.label (hierarchy_ne_generic key codeList).symm hid

/-- A mutation that is carried out again leaves everything as it is, and creates no edge. -/
theorem mutate_mutate (g : Graph) (m : Mutation) (hfresh : g.Fresh) (hm : g.Sensible m) :
    ((g.mutate m).2.mutate m).2 = (g.mutate m).2 ∧
      ∀ created, ((g.mutate m).2.mutate m).1 = some created → created = [] := by
  cases m with
  | constrain key => exact ⟨rfl, nofun⟩
  | cloneList key codeList =>
      have hids : ∀ id ∈ g.idsWithLabel (NodeLabel.generic codeList), ¬ g.Future id := by
        intro id hid
        obtain ⟨ps, hps⟩ := label?_eq_some_iff.1 (mem_idsWithLabel.1 hid)
        exact hfresh.not_future hps
      have hchanges : Changes (fun K => K = NodeLabel.hierarchy key) g
          (g.mutate (.cloneList key codeList)).2 := changes_mutate g _ rfl
      exact ⟨cloneNodes_again _ codeList false hfresh hids (hchanges.generic codeList), nofun⟩
  | cloneSources key codeList ids hasData =>
      exact ⟨cloneNodes_again _ codeList hasData hfresh hm (List.Subset.refl ids), nofun⟩
  | relateList key codeList =>
      have hsources : ∀ id ∈ g.idsWithLabel (NodeLabel.generic codeList),
          g.label? id ≠ some (NodeLabel.hierarchy key) := by
        intro id hid
        rw [mem_idsWithLabel.1 hid]
        exact fun h => hierarchy_ne_generic key codeList (Option.some.inj h).symm
      have hchanges : Changes (fun K => K = NodeLabel.hierarchy key) g
          (g.mutate (.relateList key codeList)).2 := changes_mutate g _ rfl
      have hagain := relate_again hsources (hchanges.generic codeList)
      have hgraph := congrArg Prod.snd hagain
      have hnone := congrArg Prod.fst hagain
      exact ⟨hgraph, fun created h => (Option.some.inj h).symm.trans hnone⟩
  | relateSources key ids =>
      have hagain := relate_again hm (List.Subset.refl ids)
      have hgraph := congrArg Prod.snd hagain
      have hnone := congrArg Prod.fst hagain
      exact ⟨hgraph, fun created h => (Option.some.inj h).symm.trans hnone⟩
  | copyOrder codeList ids => exact ⟨copyOrder_again g codeList ids, nofun⟩
  | linkCode codeList node code => exact ⟨linkCode_again g codeList node code, nofun⟩
  | unlinkClones key => exact ⟨dropEdges_again g _ _, nofun⟩
  | unlinkSources ids => exact ⟨dropEdges_again g _ _, nofun⟩
  | countChildren key =>
      exact ⟨countChildren_again ((countChildren_rewrites g _).idsWithLabel _), nofun⟩
  | countChildrenOf ids => exact ⟨countChildren_again (List.Subset.refl ids), nofun⟩
  | flagData key codes =>
      exact ⟨setProperties_again _ (by decide)
        ((setProperties_rewrites g _ _ (by decide)).idsWithCodeIn _ codes), nofun⟩
  | markRemaining key => exact ⟨setProperties_again _ (by decide) (marked_again _ _ rfl), nofun⟩
  | dropUnmarked key =>
      have hnone := unmarkedIds_removeNodes g (NodeLabel.hierarchy key)
      refine ⟨?_, nofun⟩
      show (((g.unmarkedIds _).foldl removeNode g).unmarkedIds _).foldl removeNode _ = _
      rw [hnone]
      rfl
  | clearMarks key =>
      exact ⟨dropProperties_again (by decide)
        ((dropProperties_rewrites g _ (by decide)).idsWithLabel _), nofun⟩

/-- Sources that are named twice or are not there are cloned, and their parent edges are repeated. -/
theorem mutate_mutate_twoCodes :
    let clone := Mutation.cloneSources ⟨"i", "x"⟩ "list" ["b", "a", "b", "z", "x"] true
    let relate := Mutation.relateSources ⟨"i", "x"⟩ ["b", "z"]
    let cloned := (twoCodes.mutate clone).2
    (cloned.mutate clone).2 = cloned ∧
      ((cloned.mutate relate).2.mutate relate).2 = (cloned.mutate relate).2 ∧
      ∀ created, ((cloned.mutate relate).2.mutate relate).1 = some created → created = [] := by
  intro clone relate cloned
  have hclone : ∀ id ∈ ["b", "a", "b", "z", "x"], ¬ twoCodes.Future id := fun id hid =>
    not_future_of_short rfl (by revert id; decide +kernel)
  have hrelate : ∀ id ∈ ["b", "z"],
      cloned.label? id ≠ some (NodeLabel.hierarchy ⟨"i", "x"⟩) := by decide +kernel
  have hfresh : cloned.Fresh :=
    (changes_mutate twoCodes clone (worksFor_any clone)).kept (fun _ _ h => h.fresh) twoCodes_fresh
  exact ⟨(mutate_mutate twoCodes clone twoCodes_fresh hclone).1,
    mutate_mutate cloned relate hfresh hrelate⟩

end Graph
end InstanceHierarchy
