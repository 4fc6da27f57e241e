import InstanceHierarchy.Proofs.BulkRestart
import InstanceHierarchy.Proofs.IdBuildRestart

/-!
# Data that arrives between builds from ids

A data node that arrives leaves the sources of a code list, their parent edges and their places as
they are; it can only make more of them wanted.  So what earlier builds have made of a hierarchy may
be taken for a hierarchy under way in the graph that has held the data node from the start.  Which
of its nodes are flagged as having data does not change by that: a clone keeps the flag that it was
made with.

The data nodes must not be at the same time nodes of the hierarchy or generic nodes; and when builds
give places, neither codes nor the code list itself.
-/

namespace InstanceHierarchy

open InstanceHierarchy.Graph

/-- What builds from ids set out with when one more node has been there from the start. -/
def Plan.extended (P : Plan) (n : Node) : Plan := { P with start := P.start.addNode n }

namespace Plan

variable {P P' : Plan} {data data' : Id → Bool} {p : Progress}

/-- Sketches are the same when they are drawn from the same sources, their clones are the same and
so are the parent edges to repeat. -/
theorem sketch_congr (hsources : P'.sources = P.sources)
    (hup : ∀ a b, P'.start.Up a b ↔ P.start.Up a b)
    (hclones : ∀ n ∈ P.sources, p.cloned n.id →
      P'.cloneProperties data' p n = P.cloneProperties data p n) :
    P'.sketch data' p = P.sketch data p := by
  have hsource : ∀ c, P'.start.source? (NodeLabel.generic P'.codeList) c =
      P.start.source? (NodeLabel.generic P.codeList) c := fun c =>
    congrArg (List.find? fun n : Node => n.cloneCode = c) hsources
  apply Picture.ext
  · funext c
    unfold sketch
    simp only [hsource]
    cases hn : P.start.source? (NodeLabel.generic P.codeList) c with
    | none => rfl
    | some n =>
        simp only [Option.bind_some]
        by_cases hcloned : p.cloned n.id
        · rw [if_pos hcloned, if_pos hcloned, hclones n (source?_eq_some hn).1 hcloned]
        · rw [if_neg hcloned, if_neg hcloned]
  · funext c d
    unfold sketch
    simp only [hsources, hup]
  · funext c s
    unfold sketch
    simp only [hsources]

/-- More codes with data make more sources relevant. -/
theorem Relevant.mono {codes codes' : List String} {s : Id} (h : P.Relevant codes s)
    (hcodes : ∀ c ∈ codes, c ∈ codes') : P.Relevant codes' s := by
  have hcarries : ∀ s, P.Carries codes s → P.Carries codes' s := by
    rintro s ⟨n, hn, hid, hc⟩
    exact ⟨n, hn, hid, hcodes _ hc⟩
  exact h.imp (hcarries s) fun ⟨d, hd, hchain⟩ => ⟨d, hcarries d hd, hchain⟩

/-! ## One more node at the start -/

section Extended

variable {n : Node} (hnew : P.start.nodes.get? n.id = none)

include hnew

theorem sources_extended (hgeneric : n.label ≠ NodeLabel.generic P.codeList) :
    (P.extended n).sources = P.sources :=
  nodesWithLabel_addNode hnew hgeneric.symm

theorem relevant_extended (hgeneric : n.label ≠ NodeLabel.generic P.codeList)
    {codes : List String} {s : Id} : (P.extended n).Relevant codes s ↔ P.Relevant codes s := by
  unfold Relevant Above Carries
  rw [sources_extended hnew hgeneric]
  exact Iff.rfl

theorem wanted_extended (hgeneric : n.label ≠ NodeLabel.generic P.codeList) {key : HierarchyKey}
    {s : Id} (h : P.Wanted key s) : (P.extended n).Wanted key s :=
  (relevant_extended hnew hgeneric).2 (h.mono fun _ hc => dataCodes_addNode hnew hc)

/-- Nodes get linked to the codes they got linked to before. -/
theorem targets_withCode_extended (hcode : n.label ≠ NodeLabel.code P.codeList) {s : Id}
    (hs : n.id ≠ s) : ((P.extended n).withCode s).targets s EdgeLabel.hasCode =
      (P.withCode s).targets s EdgeLabel.hasCode := by
  have hnode : (P.extended n).start.node? s = P.start.node? s := by
    show (P.start.addNode n).node? s = _
    unfold node?
    rw [get?_addNode, if_neg hs]
  have hsame : (P.extended n).start.codeNode? P.codeList = P.start.codeNode? P.codeList := by
    funext code
    unfold codeNode?
    exact congrArg (List.find? fun n : Node => n.text? Property.value = some code)
      (nodesWithLabel_addNode hnew hcode.symm)
  unfold withCode
  rw [hnode]
  cases hm : P.start.node? s with
  | none => rfl
  | some m =>
      show ((P.extended n).start.linkCode P.codeList s m.cloneCode).targets s _ =
        (P.start.linkCode P.codeList s m.cloneCode).targets s _
      rw [targets_linkCode (contains_of_node? (hnode.trans hm)),
        targets_linkCode (contains_of_node? hm), hsame]
      rfl

theorem place_extended (hcode : n.label ≠ NodeLabel.code P.codeList)
    (hlist : n.label ≠ NodeLabel.codeList P.codeList) {s : Node} (hne : n.id ≠ s.id)
    (hs : s ∈ P.sources) (hs' : s ∈ (P.extended n).sources) :
    (P.extended n).place s.id = P.place s.id := by
  unfold place
  refine orderOf?_congr (targets_withCode_extended hnew hcode hne) ?_ fun id => ?_
  · rw [codeLinked_eq hs, codeLinked_eq hs', edgesWithLabel_linkCode _ _ (by decide),
      edgesWithLabel_linkCode _ _ (by decide)]
    rfl
  · rw [codeLinked_eq hs, codeLinked_eq hs', Bool.eq_iff_iff, isLabelled_iff, isLabelled_iff]
    unfold label?
    rw [nodes_linkCode, nodes_linkCode]
    exact label_addNode_iff hnew hlist.symm

end Extended
end Plan

namespace Graph

/-- A data node that arrives while builds of a hierarchy from ids come and go: its id is neither in
use nor one that builds draw, and it is not a node that they clone or take places from. -/
structure Arriving (placing : Bool) (key : HierarchyKey) (codeList : Id) (start : Graph)
    (n : Node) : Prop extends DataNode key codeList n where
  plain : placing = true →
    n.label ≠ NodeLabel.code codeList ∧ n.label ≠ NodeLabel.codeList codeList
  new : start.nodes.get? n.id = none
  undrawn : ¬ start.Future n.id

variable {start g : Graph} {label : String} {n : Node}

namespace WorkedOn

/-- Where no node is, no edge was added. -/
theorem joined_unstored (h : WorkedOn start label g) {l : String} {a b : Id}
    (ha : g.nodes.get? a = none) : g.Joined l a b ↔ start.Joined l a b := by
  obtain ⟨new, hnew⟩ := h.additions
  rw [hnew.joined]
  refine or_iff_left fun hmem => ?_
  obtain ⟨e, he, -, rfl, -⟩ := mem_tells.1 hmem
  obtain ⟨v, hv⟩ := Table.contains_iff.1 (hnew.added e he).stored.1
  rw [hv] at ha
  cases ha

/-- A new node that is not of the hierarchy may as well have been there at the start. -/
theorem addNode (h : WorkedOn start label g) (hnew : g.nodes.get? n.id = none)
    (hlabel : label ≠ n.label) (hid : ¬ start.Future n.id) :
    WorkedOn (start.addNode n) label (g.addNode n) := by
  have hstays : ∀ id, g.nodes.contains id = true → (g.addNode n).nodes.contains id = true := by
    intro id hin
    rw [Table.contains_iff] at hin ⊢
    obtain ⟨v, hv⟩ := hin
    rw [get?_addNode]
    split
    · exact ⟨_, rfl⟩
    · exact ⟨v, hv⟩
  obtain ⟨new, hadditions⟩ := h.additions
  refine ⟨h.fresh.addNode fun hf => hid (h.grows.future hf), ⟨h.grows.ident, h.grows.drawn⟩,
    fun id hl => h.drawn id ((label_addNode_iff hnew hlabel).1 hl),
    new, hadditions.edges, hadditions.once, hadditions.ids, fun e he => ?_⟩
  have hadded := hadditions.added e he
  refine { hadded with apart := ?_, stored := hadded.stored.imp (hstays _) (hstays _), kind := ?_ }
  · rw [get?_addNode, if_neg]
    · exact hadded.apart
    · exact fun heq => hid (heq ▸ hadded.drawn)
  · exact hadded.kind.imp_right (label_addNode_iff hnew hlabel).2

end WorkedOn

theorem label?_addNode (g : Graph) (n : Node) (id : Id) :
    (g.addNode n).label? id = if n.id = id then some n.label else g.label? id := by
  unfold label?
  rw [get?_addNode]
  split <;> rfl

/-- What is preserved is preserved when a node comes to both graphs at which they have the same
edges. -/
theorem Preserves.addNode {L : Set String} (h : Preserves L start g)
    (hjoined : ∀ l b, g.Joined l n.id b ↔ start.Joined l n.id b) :
    Preserves L (start.addNode n) (g.addNode n) := by
  refine ⟨fun id v hv => ?_, fun a v hget hv b => ?_, fun a s hstray => ?_⟩
  · rw [get?_addNode, get?_addNode]
    split
    · exact Iff.rfl
    · exact h.nodes id v hv
  · by_cases ha : n.id = a
    · subst ha
      exact hjoined EdgeLabel.hasParent b
    · rw [get?_addNode, if_neg ha] at hget
      exact h.up a v hget hv b
  · obtain ⟨hj, hK⟩ := hstray
    simp only [label?_addNode] at hK
    by_cases ha : n.id = a
    · subst ha
      refine ⟨(hjoined EdgeLabel.cloneOf s).1 hj, fun K hL => ?_⟩
      have hlabel := hK K hL
      rw [if_pos rfl] at hlabel
      rwa [label?_addNode, if_pos rfl]
    · simp only [if_neg ha] at hK
      have hstart := h.stray a s ⟨hj, hK⟩
      refine ⟨hstart.1, fun K hL => ?_⟩
      rw [label?_addNode, if_neg ha]
      exact hstart.2 K hL

variable {P : Plan} {data : Id → Bool} {old : Id → Prop} {key : HierarchyKey}
  {placing : Bool} {counted : String → Prop} {m : Milestones}

namespace Arriving

variable (hn : Arriving placing key P.codeList P.start n)

include hn

/-- No build has come upon the id. -/
theorem unstored (h : Underway P data old key placing counted m g) :
    g.nodes.get? n.id = none := by
  cases hv : g.nodes.get? n.id with
  | none => rfl
  | some v =>
      by_cases hl : v.label = NodeLabel.hierarchy key
      · exact absurd (h.workedOn.drawn n.id (hl ▸ label_of_get? hv)) hn.undrawn
      · have hstart := (h.site.preserves.nodes n.id v hl).1 hv
        rw [hn.new] at hstart
        cases hstart

theorem ne_source {s : Node} (hs : s ∈ P.sources) : n.id ≠ s.id := by
  intro heq
  have hnew := hn.new
  rw [heq, (Plan.mem_sources.1 hs).2] at hnew
  cases hnew

theorem sources : (P.extended n).sources = P.sources :=
  Plan.sources_extended hn.new hn.notGeneric

/-- The draft of a hierarchy is one still when more sources are wanted. -/
theorem draft {pic : Picture} (h : P.Draft data key placing counted m pic) :
    (P.extended n).Draft data key placing (fun _ => False) .start pic := by
  obtain ⟨p, hpic, hp, -⟩ := h.sketched
  have hclones : ∀ s ∈ P.sources, p.cloned s.id →
      (P.extended n).cloneProperties data p s = P.cloneProperties data p s := by
    intro s hs _
    unfold Plan.cloneProperties Plan.withPlace
    by_cases hplaced : p.placed s.id
    · obtain ⟨hcode, hlist⟩ := hn.plain (hp.placed s.id hplaced).1
      rw [if_pos hplaced, if_pos hplaced,
        Plan.place_extended hn.new hcode hlist (hn.ne_source hs) hs (hn.sources.symm ▸ hs)]
      rfl
    · rw [if_neg hplaced, if_neg hplaced]
      rfl
  have hsketch : (P.extended n).sketch data p = P.sketch data p :=
    Plan.sketch_congr hn.sources (fun _ _ => Iff.rfl) hclones
  have hwanted : ∀ s, P.Wanted key s → (P.extended n).Wanted key s :=
    fun s => Plan.wanted_extended hn.new hn.notGeneric
  exact ⟨⟨p, hpic.trans hsketch.symm, { hp with cloned := fun s hs => hwanted s (hp.cloned s hs) },
    Milestones.met_start p⟩, Picture.count_none _ fun _ => id⟩

variable (hready : P.Ready {NodeLabel.hierarchy key})

include hready

theorem site (h : Underway P data old key placing counted m g) :
    Site {NodeLabel.hierarchy key} (P.extended n) (g.addNode n) := by
  have hnew := hn.unstored h
  have hjoined : ∀ l b, g.Joined l n.id b ↔ P.start.Joined l n.id b :=
    fun l b => h.workedOn.joined_unstored hnew
  refine ⟨⟨h.site.sound.fresh.addNode fun hf => hn.undrawn (h.workedOn.grows.future hf), ?_⟩,
    h.site.preserves.addNode hjoined, h.site.usedBy, fun s => ?_⟩
  · rintro K rfl
    exact (h.site.sound.tidy _ rfl).addNode hnew hn.notClone.symm fun K hK => hK ▸ hn.notClone.symm
  · -- links are made only when places are given, and then the new node is no code
    by_cases hwanted : placing = true ∧ P.Wanted key s
    · obtain ⟨source, hsource, rfl⟩ := hwanted.2.source hready
      refine (h.site.codes source.id).imp id fun hlinked => ?_
      unfold CodeLinked at hlinked ⊢
      rw [Plan.targets_withCode_extended hn.new (hn.plain hwanted.1).1 (hn.ne_source hsource)]
      exact hlinked
    · exact Or.inl (h.untouched s hwanted)

/-- What builds have made of a graph before the node arrived is under way with the node. -/
theorem underway (h : Underway P data old key placing counted m g) :
    Underway (P.extended n) data old key placing (fun _ => False) .start (g.addNode n) where
  site := hn.site hready h
  workedOn := h.workedOn.addNode (hn.unstored h) hn.notClone.symm hn.undrawn
  untouched s hs := h.untouched s fun hwanted =>
    hs ⟨hwanted.1, Plan.wanted_extended hn.new hn.notGeneric hwanted.2⟩
  coded _ hs := hs.elim
  clones s hs := by
    obtain ⟨source, hsource, hid, id, hcode⟩ := h.clones s hs
    exact ⟨source, hn.sources.symm ▸ hsource, hid, id,
      (coded_addNode_iff (hn.unstored h) hn.notClone.symm).2 hcode⟩
  shows := by
    obtain ⟨pic, hpic, hdraft⟩ := h.shows
    exact ⟨pic, hpic.addNode (hn.unstored h) hn.notClone.symm, hn.draft hdraft⟩

/-- What builds ask of the graph that they set out from is so with the node. -/
theorem ready : (P.extended n).Ready {NodeLabel.hierarchy key} where
  distinct := by
    constructor
    · intro id hid
      obtain ⟨c, hc⟩ := hready.distinct.coded id
        ((label_addNode_iff hn.new hn.notGeneric.symm).1 hid)
      exact ⟨c, (coded_addNode_iff hn.new hn.notGeneric.symm).2 hc⟩
    · intro c a b ha hb
      exact hready.distinct.unique c a b ((coded_addNode_iff hn.new hn.notGeneric.symm).1 ha)
        ((coded_addNode_iff hn.new hn.notGeneric.symm).1 hb)
  inside a b hup ha :=
    (label_addNode_iff hn.new hn.notGeneric.symm).2
      (hready.inside a b hup ((label_addNode_iff hn.new hn.notGeneric.symm).1 ha))
  unlinked := hready.unlinked
  hierarchies := hready.hierarchies

end Arriving

/-! ## Several nodes -/

/-- The graph with some more nodes. -/
def addNodes (g : Graph) (ns : List Node) : Graph := ns.foldl addNode g

/-- With some more nodes at the start a plan becomes another one.  That has the same sources, and
what builds have made of a graph before the nodes arrived is under way with them. -/
structure Extends (placing : Bool) (key : HierarchyKey) (ns : List Node) (P P' : Plan) :
    Prop where
  sources : P'.sources = P.sources
  relevant : ∀ codes s, P'.Relevant codes s ↔ P.Relevant codes s
  dataCodes : ∀ c ∈ P.start.dataCodes (NodeLabel.data key),
    c ∈ P'.start.dataCodes (NodeLabel.data key)
  ready : P'.Ready {NodeLabel.hierarchy key}
  fresh : P'.start.Fresh
  free : ∀ id, P'.start.label? id ≠ some (NodeLabel.hierarchy key)
  underway : ∀ {data old counted m g}, Underway P data old key placing counted m g →
    Underway P' data old key placing (fun _ => False) .start (g.addNodes ns)

theorem extends_refl (placing : Bool) (hready : P.Ready {NodeLabel.hierarchy key})
    (hfresh : P.start.Fresh) (hfree : ∀ id, P.start.label? id ≠ some (NodeLabel.hierarchy key)) :
    Extends placing key [] P P :=
  ⟨rfl, fun _ _ => Iff.rfl, fun _ => id, hready, hfresh, hfree, fun h => h.begun⟩

/-- Data nodes with distinct ids arrive one by one. -/
theorem extends_addNodes {ns : List Node} (hready : P.Ready {NodeLabel.hierarchy key})
    (hfresh : P.start.Fresh) (hfree : ∀ id, P.start.label? id ≠ some (NodeLabel.hierarchy key))
    (hids : (ns.map (·.id)).Nodup)
    (hns : ∀ n ∈ ns, Arriving placing key P.codeList P.start n) :
    Extends placing key ns P ⟨P.start.addNodes ns, P.codeList⟩ := by
  induction ns generalizing P with
  | nil => exact extends_refl placing hready hfresh hfree
  | cons n rest ih =>
      obtain ⟨hother, hids⟩ := List.nodup_cons.1 hids
      have hn := hns n List.mem_cons_self
      have hrest : ∀ m ∈ rest, Arriving placing key P.codeList (P.start.addNode n) m := by
        intro m hm
        have harriving := hns m (List.mem_cons_of_mem n hm)
        refine { harriving with new := ?_ }
        rw [get?_addNode, if_neg]
        · exact harriving.new
        · exact fun heq => hother (List.mem_map.2 ⟨m, hm, heq.symm⟩)
      have hone := ih (P := P.extended n) (hn.ready hready) (hfresh.addNode hn.undrawn)
        (fun id hl => hfree id ((label_addNode_iff hn.new hn.notClone.symm).1 hl)) hids hrest
      exact
        { hone with
          sources := hone.sources.trans hn.sources
          relevant := fun codes s => (hone.relevant codes s).trans
            (Plan.relevant_extended hn.new hn.notGeneric)
          dataCodes := fun c hc => hone.dataCodes c (dataCodes_addNode hn.new hc)
          underway := fun h => hone.underway (hn.underway hready h) }

end Graph
end InstanceHierarchy
