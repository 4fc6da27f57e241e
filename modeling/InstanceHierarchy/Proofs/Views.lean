import InstanceHierarchy.Proofs.BulkOutcome
import InstanceHierarchy.Proofs.Distance

/-!
# What is read of a tidy hierarchy

A reader asks for the node with a code, then for its children and for its ancestors, by queries of
their own that go by the code.  In a tidy hierarchy whose nodes all have a title the queries cannot
miss each other: the code names one node, every child and every ancestor is a node of the hierarchy
with a code and a title, and nothing is listed twice.  A code that no node carries is not found.
-/

namespace InstanceHierarchy

open Relation

/-- The element that a node with a code and a title is shown as. -/
def Element.shown (n : Node) : Element where
  id := n.cloneCode
  label := (n.text? Property.label).getD ""
  numberOfChildren := (n.int64? Property.numberOfChildren).getD 0
  hasData := (n.bool? Property.hasData).getD false
  order := n.int64? Property.order

theorem Element.ofNode_eq {n : Node} {code title : String}
    (hcode : n.text? Property.code = some code) (htitle : n.text? Property.label = some title) :
    Element.ofNode n = .ok (.shown n) := by
  unfold ofNode shown Node.cloneCode
  rw [hcode, htitle]
  rfl

theorem mapM_ofNode {ns : List Node} (h : ∀ n ∈ ns, Element.ofNode n = .ok (.shown n)) :
    ns.mapM Element.ofNode = .ok (ns.map .shown) := by
  induction ns with
  | nil => rfl
  | cons n rest ih =>
      rw [List.mapM_cons, h n List.mem_cons_self, ih fun m hm => h m (List.mem_cons_of_mem n hm)]
      rfl

/-- A list of elements names the codes that pass a test, each of them once. -/
structure Names (elements : List Element) (test : String → Prop) : Prop where
  once : (elements.map (·.id)).Nodup
  exactly : ∀ c, c ∈ elements.map (·.id) ↔ test c

theorem Names.congr {elements : List Element} {test test' : String → Prop}
    (h : Names elements test) (htest : ∀ c, test c ↔ test' c) : Names elements test' :=
  ⟨h.once, fun c => (h.exactly c).trans (htest c)⟩

/-- There are as many codes as elements. -/
theorem Names.encard_eq {elements : List Element} {test : String → Prop} (h : Names elements test) :
    Set.encard { c | test c } = elements.length := by
  have hset : { c | test c } = ((elements.map (·.id)).toFinset : Set String) := by
    ext c
    rw [List.coe_toFinset]
    exact (h.exactly c).symm
  rw [hset, Set.encard_coe_eq_coe_finsetCard, List.toFinset_card_of_nodup h.once, List.length_map]

namespace Graph

/-- The nodes with a label have texts to be shown by. -/
def Titled (g : Graph) (label : String) : Prop :=
  ∀ n ∈ g.nodesWithLabel label, (n.text? Property.label).isSome

/-- The view of a node with its children and its ancestors. -/
def viewOf (g : Graph) (label : String) (n : Node) : ElementView :=
  { ElementView.ofElement (.shown n) with
    children := (g.childrenOf label n.cloneCode).map .shown
    breadcrumbs := (g.records (g.ancestors [n.id])).map .shown }

variable {L : Set String} {g : Graph} {label : String}

/-! ## The nodes that queries find -/

theorem Tidy.distinct (ht : Tidy L label g) : g.DistinctCodes label :=
  ⟨fun _ hid => ht.exists_code hid, ht.unique⟩

theorem Tidy.coded_node (ht : Tidy L label g) {n : Node} (hn : n ∈ g.nodesWithLabel label) :
    g.Coded label n.cloneCode n.id := (ht.distinct.cloneCode_iff hn).1 rfl

/-- A code is that of one node. -/
theorem idsWithCode_eq (ht : Tidy L label g) {c : String} {id : Id} (hc : g.Coded label c id) :
    g.idsWithCode label c = [id] := by
  have hnodup : (g.idsWithCode label c).Nodup :=
    (g.nodup_idsWithLabel label).sublist (List.filter_sublist.map _)
  exact eq_singleton_of_nodup hnodup (mem_idsWithCode.2 hc) fun a ha =>
    ht.unique c a id (mem_idsWithCode.1 ha) hc

theorem records_singleton {n : Node} (hn : n ∈ g.nodesWithLabel label) :
    g.records [n.id] = [n] := by
  have hnode : g.node? n.id = some n := node?_eq_some.2 ⟨rfl, (mem_nodesWithLabel.1 hn).2⟩
  simp [records, hnode]

/-- Ids of nodes with a label name such nodes, one each. -/
theorem records_of_label {ids : List Id} (hids : ∀ id ∈ ids, g.label? id = some label) :
    (g.records ids).map (·.id) = ids ∧ ∀ n ∈ g.records ids, n ∈ g.nodesWithLabel label := by
  induction ids with
  | nil => exact ⟨rfl, fun n hn => absurd hn List.not_mem_nil⟩
  | cons id rest ih =>
      obtain ⟨ps, hps⟩ := label?_eq_some_iff.1 (hids id List.mem_cons_self)
      have hnode : g.node? id = some ⟨id, label, ps⟩ := node?_eq_some.2 ⟨rfl, hps⟩
      obtain ⟨hrest, hall⟩ := ih fun x hx => hids x (List.mem_cons_of_mem id hx)
      have hcons : g.records (id :: rest) = ⟨id, label, ps⟩ :: g.records rest := by
        simp [records, hnode]
      rw [hcons]
      constructor
      · simp [hrest]
      · exact List.forall_mem_cons.2 ⟨mem_nodesWithLabel.2 ⟨rfl, hps⟩, hall⟩

/-- The children of the only node with a code are the sources of the edges into it. -/
theorem childrenOf_perm (ht : Tidy L label g) {c : String} {id : Id} (hc : g.Coded label c id) :
    ((g.childrenOf label c).map (·.id)).Perm (g.sources id EdgeLabel.hasParent) ∧
      ∀ n ∈ g.childrenOf label c, n ∈ g.nodesWithLabel label := by
  have hperm : (TextSet.ofList (g.sources id EdgeLabel.hasParent)).toList.Perm
      (g.sources id EdgeLabel.hasParent) := by
    have hdedup := TextSet.perm_dedup (g.sources id EdgeLabel.hasParent)
    rwa [(ht.nodup_sources hc.label).dedup] at hdedup
  unfold childrenOf
  simp only [idsWithCode_eq ht hc, List.flatMap_singleton]
  generalize (TextSet.ofList (g.sources id EdgeLabel.hasParent)).toList = ids at hperm ⊢
  have hlabel : ∀ a ∈ ids, g.label? a = some label := fun a ha =>
    (ht.into _ a id (mem_sources.1 (hperm.mem_iff.1 ha)) hc.label).2
  obtain ⟨hids, hall⟩ := records_of_label hlabel
  -- all children have the label, so none is left out
  have hkept : (g.records ids).filter (fun n => n.label = label) = g.records ids :=
    List.filter_eq_self.2 fun n hn => decide_eq_true (mem_nodesWithLabel.1 (hall n hn)).1
  simp only [hkept]
  have hsorted := List.mergeSort_perm (g.records ids) fun a b =>
    placeLe (a.int64? Property.order, (a.text? Property.label).getD "")
      (b.int64? Property.order, (b.text? Property.label).getD "")
  refine ⟨?_, fun n hn => hall n (hsorted.subset hn)⟩
  have hnames := hsorted.map (·.id)
  rw [hids] at hnames
  exact hnames.trans hperm

/-- The ancestors of a node of a hierarchy belong to it. -/
theorem label_of_mem_ancestors (ht : Tidy L label g) {c : String} {id a : Id}
    (hc : g.Coded label c id) (ha : a ∈ g.ancestors [id]) : g.label? a = some label := by
  obtain ⟨s, hs, hchain⟩ := mem_ancestors.1 ha
  obtain rfl := List.mem_singleton.1 hs
  obtain ⟨k, -, hsteps⟩ := transGen_iff_steps.1 hchain
  obtain ⟨p, hp⟩ := ht.steps_coded hc hsteps
  exact hp.label

/-! ## What they are shown as -/

theorem ofNode_of_tidy (ht : Tidy L label g) (htitled : g.Titled label) {n : Node}
    (hn : n ∈ g.nodesWithLabel label) : Element.ofNode n = .ok (.shown n) := by
  obtain ⟨title, htitle⟩ := Option.isSome_iff_exists.1 (htitled n hn)
  obtain ⟨rfl, hget⟩ := mem_nodesWithLabel.1 hn
  obtain ⟨c, hc⟩ := ht.coded n.id n.properties hget
  exact Element.ofNode_eq hc htitle

/-- Nodes with distinct ids have distinct codes. -/
theorem names_shown (ht : Tidy L label g) {ns : List Node} {test : String → Prop}
    (hnodup : (ns.map (·.id)).Nodup) (hlabel : ∀ n ∈ ns, n ∈ g.nodesWithLabel label)
    (htest : ∀ c, test c ↔ ∃ id, g.Coded label c id ∧ id ∈ ns.map (·.id)) :
    Names (ns.map .shown) test := by
  have hids : (ns.map .shown).map Element.id = ns.map Node.cloneCode := by
    rw [List.map_map]
    rfl
  constructor
  · rw [hids]
    refine (List.Nodup.of_map _ hnodup).map_on fun n hn m hm hcode => ?_
    have hm' := ht.coded_node (hlabel m hm)
    rw [← hcode] at hm'
    exact List.inj_on_of_nodup_map hnodup hn hm
      (ht.unique _ n.id m.id (ht.coded_node (hlabel n hn)) hm')
  · intro c
    rw [hids, htest]
    constructor
    · intro hc
      obtain ⟨n, hn, rfl⟩ := List.mem_map.1 hc
      exact ⟨n.id, ht.coded_node (hlabel n hn), List.mem_map_of_mem hn⟩
    · rintro ⟨id, hc, hid⟩
      obtain ⟨n, hn, rfl⟩ := List.mem_map.1 hid
      rw [((ht.coded_node (hlabel n hn)).functional hc).2.symm]
      exact List.mem_map_of_mem hn

/-- The nodes of a hierarchy name all its codes. -/
theorem names_all (ht : Tidy L label g) :
    Names ((g.nodesWithLabel label).map .shown) fun c => ∃ id, g.Coded label c id :=
  names_shown ht (g.nodup_idsWithLabel label) (fun _ hn => hn) fun _ => exists_congr fun _ =>
    (and_iff_left_of_imp fun hc => mem_idsWithLabel.2 hc.label).symm

variable {pic : Picture}

/-- The children that a view names are those of the picture. -/
theorem names_children (h : g.Shows label pic) (ht : Tidy L label g) {n : Node}
    (hn : n ∈ g.nodesWithLabel label) :
    Names (g.viewOf label n).children (pic.parent · n.cloneCode) ∧
      (g.viewOf label n).children.length = Set.ncard { k | pic.parent k n.cloneCode } := by
  have hc := ht.coded_node hn
  obtain ⟨hperm, hlabel⟩ := childrenOf_perm ht hc
  constructor
  · refine names_shown ht (hperm.nodup_iff.2 (ht.nodup_sources hc.label)) hlabel fun k => ?_
    rw [h.parent]
    constructor
    · rintro ⟨a, b, ha, hb, hup⟩
      obtain rfl := ht.unique _ b n.id hb hc
      exact ⟨a, ha, hperm.mem_iff.2 (mem_sources.2 hup)⟩
    · rintro ⟨a, ha, hmem⟩
      exact ⟨a, n.id, ha, hc, mem_sources.1 (hperm.mem_iff.1 hmem)⟩
  · rw [← length_sources h ht hc, ← hperm.length_eq]
    show ((g.childrenOf label n.cloneCode).map Element.shown).length = _
    rw [List.length_map, List.length_map]

/-- The ancestors that a view names are those of the picture, in the order of their distance. -/
theorem names_breadcrumbs (h : g.Shows label pic) (ht : Tidy L label g) {n : Node}
    (hn : n ∈ g.nodesWithLabel label) :
    Names (g.viewOf label n).breadcrumbs (TransGen pic.parent n.cloneCode) ∧
      (g.viewOf label n).breadcrumbs.Pairwise fun a b =>
        distance pic.parent n.cloneCode a.id ≤ distance pic.parent n.cloneCode b.id := by
  have hc := ht.coded_node hn
  obtain ⟨hids, hlabel⟩ := records_of_label fun a ha => label_of_mem_ancestors ht hc ha
  have hchain : ∀ {p b}, g.Coded label p b →
      (TransGen g.Up n.id b ↔ TransGen pic.parent n.cloneCode p) :=
    fun hb => transGen_congr fun _ _ => h.steps_iff ht hc hb
  constructor
  · refine names_shown ht (hids.symm ▸ g.nodup_ancestors [n.id]) hlabel fun p => ?_
    rw [hids]
    constructor
    · intro hp
      -- the last code of the chain is that of a node
      obtain ⟨q, -, hqp⟩ := TransGen.tail'_iff.1 hp
      obtain ⟨x, b, hx, hb, -⟩ := (h.parent q p).1 hqp
      exact ⟨b, hb, mem_ancestors.2 ⟨n.id, List.mem_cons_self, (hchain hb).2 hp⟩⟩
    · rintro ⟨b, hb, hmem⟩
      obtain ⟨s, hs, hp⟩ := mem_ancestors.1 hmem
      obtain rfl := List.mem_singleton.1 hs
      exact (hchain hb).1 hp
  · have hdistance : ∀ m ∈ g.records (g.ancestors [n.id]),
        distance pic.parent n.cloneCode (Element.shown m).id = distance g.Up n.id m.id :=
      fun m hm => (distance_congr fun _ _ => h.steps_iff ht hc (ht.coded_node (hlabel m hm))).symm
    have hascend := g.ancestors_ascend n.id
    rw [← hids] at hascend
    refine List.pairwise_map.2 ((List.pairwise_map.1 hascend).imp_of_mem fun ha hb hle => ?_)
    rw [hdistance _ ha, hdistance _ hb]
    exact hle

/-! ## Reading -/

section Runs

variable {g' : Graph} {β γ : Type}

theorem run_bind_ok {x : StoreM β} {a : β} (f : β → StoreM γ)
    (h : Environment.graph.run x.run g = (.ok a, g')) :
    Environment.graph.run (x >>= f).run g = Environment.graph.run (f a).run g' := by
  have hbind := Environment.graph.run_bind x.run (fun r => ExceptT.bindCont f r) g
  rw [h] at hbind
  exact hbind

theorem run_liftExcept (e : Except StoreError β) :
    Environment.graph.run (liftExcept e : StoreM β).run g = (e, g) := by
  cases e <;> rfl

end Runs

/-- A query that fits its method is answered, and leaves the graph as it is. -/
theorem run_ask (r : Reader) {m : Method} {q : Query} {reply : m.Reply}
    (hfit : m.fit? (g.answer q) = some reply) :
    Environment.graph.run (r.ask m q).run g = (.ok reply, g) := by
  have hcall : g.call m (.of r.dialect (.query q)) = (.ok reply, g) := call_query hfit _
  show ((g.call m (.of r.dialect (.query q))).1.mapError _,
    (g.call m (.of r.dialect (.query q))).2) = _
  rw [hcall]
  rfl

/-- Nodes that are answered can all be shown. -/
theorem run_askElements (r : Reader) {q : Query} {ns : List Node}
    (hfit : Method.fit? .nodes (g.answer q) = some ns)
    (hshown : ∀ n ∈ ns, Element.ofNode n = .ok (.shown n)) :
    Environment.graph.run (r.askElements q).run g = (.ok (ns.map .shown), g) := by
  refine (run_bind_ok _ (run_ask r hfit)).trans ?_
  rw [mapM_ofNode hshown]
  rfl

/-- The node with a code is read with its children and its ancestors. -/
theorem run_element (r : Reader) {key : HierarchyKey} (ht : Tidy L (NodeLabel.hierarchy key) g)
    (htitled : g.Titled (NodeLabel.hierarchy key)) {n : Node}
    (hn : n ∈ g.nodesWithLabel (NodeLabel.hierarchy key)) :
    Environment.graph.run (r.element key n.cloneCode).run g =
      (.ok (g.viewOf (NodeLabel.hierarchy key) n), g) := by
  have hc := ht.coded_node hn
  have hnode : Environment.graph.run (r.ask .nodes (.element key n.cloneCode)).run g =
      (.ok [n], g) := by
    refine run_ask r ?_
    show some (g.records (g.idsWithCode _ _)) = _
    rw [idsWithCode_eq ht hc, records_singleton hn]
  have hchildren := run_askElements r (g := g) (q := .children key n.cloneCode) rfl
    fun m hm => ofNode_of_tidy ht htitled ((childrenOf_perm ht hc).2 m hm)
  have hancestry : Environment.graph.run (r.askElements (.ancestry key n.cloneCode)).run g =
      (.ok ((g.records (g.ancestors [n.id])).map .shown), g) := by
    refine run_askElements r ?_ fun m hm => ofNode_of_tidy ht htitled
      ((records_of_label fun a ha => label_of_mem_ancestors ht hc ha).2 m hm)
    show some (g.records (g.ancestors (g.idsWithCode _ _))) = _
    rw [idsWithCode_eq ht hc]
  have hshown : Environment.graph.run (liftExcept (Element.ofNode n) : StoreM Element).run g =
      (.ok (.shown n), g) := by
    rw [ofNode_of_tidy ht htitled hn]
    rfl
  refine (run_bind_ok _ hnode).trans ?_
  refine (run_bind_ok _ (run_liftExcept _)).trans ?_
  refine (run_bind_ok _ hshown).trans ?_
  refine (run_bind_ok _ hchildren).trans ?_
  exact run_bind_ok _ hancestry

/-- A code that no node carries is not found. -/
theorem run_element_of_not (r : Reader) {key : HierarchyKey} {c : String}
    (h : ∀ id, ¬ g.Coded (NodeLabel.hierarchy key) c id) :
    Environment.graph.run (r.element key c).run g = (.error .notFound, g) := by
  have hnode : Environment.graph.run (r.ask .nodes (.element key c)).run g = (.ok [], g) := by
    refine run_ask r ?_
    show some (g.records (g.idsWithCode _ _)) = _
    rw [idsWithCode_eq_nil_iff.2 h]
    rfl
  exact (run_bind_ok _ hnode).trans rfl

/-- The nodes are as many as the codes whose elements can be read. -/
theorem run_countNodes (r : Reader) {key : HierarchyKey} (ht : Tidy L (NodeLabel.hierarchy key) g)
    (htitled : g.Titled (NodeLabel.hierarchy key)) :
    ∃ n : Nat, Environment.graph.run (r.countNodes key).run g = (.ok n, g) ∧
      Set.encard { c | ∃ view, (Environment.graph.run (r.element key c).run g).1 = .ok view } = n := by
  have hread : { c | ∃ view, (Environment.graph.run (r.element key c).run g).1 = .ok view } =
      { c | ∃ id, g.Coded (NodeLabel.hierarchy key) c id } := by
    ext c
    constructor
    · rintro ⟨view, hview⟩
      by_contra hnone
      have hmissing := run_element_of_not r fun id hid => hnone ⟨id, hid⟩
      rw [hmissing] at hview
      cases hview
    · rintro ⟨id, hid⟩
      obtain ⟨n, hn, -, rfl⟩ := ht.distinct.coded_iff.1 hid
      exact ⟨_, congrArg Prod.fst (run_element r ht htitled hn)⟩
  refine ⟨(g.idsWithLabel (NodeLabel.hierarchy key)).length, run_ask r rfl, ?_⟩
  rw [hread, (names_all ht).encard_eq, List.length_map]
  unfold idsWithLabel
  rw [List.length_map]

end Graph
end InstanceHierarchy
