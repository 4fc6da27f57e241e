import InstanceHierarchy.Proofs.BulkSteps
import InstanceHierarchy.Proofs.Changes

/-!
# Bulk builds that are started anew

A bulk build may be cut off after any of its statements and started anew, as often as one likes, and
data nodes may arrive in between.  The first build that comes to its end leaves the hierarchy, and
reports what a single build reports that finds all the data nodes there from the start.  What the
attempts before it drew, flagged, marked or counted leaves no trace.

The data nodes must not be generic nodes of the code list at the same time.  An instance and a
dimension can be named so that they are; then a clone keeps the label of the generic node that was
the first one with its code when it was made.
-/

namespace InstanceHierarchy
namespace Graph

open Relation Environment

/-! ## Nodes that arrive -/

section Arrival

variable {g : Graph} {n : Node}

theorem get?_addNode (g : Graph) (n : Node) (id : Id) :
    (g.addNode n).nodes.get? id = if n.id = id then some n.vertex else g.nodes.get? id :=
  Table.get?_insert g.nodes n.id id n.vertex

/-- A node with a new id is not seen under other labels than its own. -/
theorem get?_addNode_iff (hnew : g.nodes.get? n.id = none) {id : Id} {v : Vertex}
    (hv : v.label ≠ n.label) :
    (g.addNode n).nodes.get? id = some v ↔ g.nodes.get? id = some v := by
  rw [get?_addNode]
  split
  · rename_i hid
    subst hid
    rw [hnew]
    refine iff_of_false (fun h => ?_) nofun
    cases h
    exact hv rfl
  · exact Iff.rfl

theorem label_addNode_iff (hnew : g.nodes.get? n.id = none) {id : Id} {label : String}
    (hl : label ≠ n.label) : (g.addNode n).label? id = some label ↔ g.label? id = some label := by
  rw [label?_eq_some_iff, label?_eq_some_iff]
  exact exists_congr fun ps => get?_addNode_iff hnew hl

theorem coded_addNode_iff (hnew : g.nodes.get? n.id = none) {id : Id} {label code : String}
    (hl : label ≠ n.label) : (g.addNode n).Coded label code id ↔ g.Coded label code id :=
  exists_congr fun _ => and_congr_left fun _ => get?_addNode_iff hnew hl

theorem nodesWithLabel_addNode (hnew : g.nodes.get? n.id = none) {label : String}
    (hl : label ≠ n.label) : (g.addNode n).nodesWithLabel label = g.nodesWithLabel label :=
  nodesWithLabel_congr fun _ _ hv => get?_addNode_iff hnew (hv ▸ hl)

/-- The data nodes that were there are there still. -/
theorem dataCodes_addNode (hnew : g.nodes.get? n.id = none) {key : HierarchyKey} {c : String}
    (hc : c ∈ g.dataCodes (NodeLabel.data key)) :
    c ∈ (g.addNode n).dataCodes (NodeLabel.data key) := by
  obtain ⟨m, hm, hvalue⟩ := mem_dataCodes.1 hc
  obtain ⟨hl, hget⟩ := mem_nodesWithLabel.1 hm
  refine mem_dataCodes.2 ⟨m, mem_nodesWithLabel.2 ⟨hl, ?_⟩, hvalue⟩
  rw [get?_addNode, if_neg, hget]
  intro heq
  rw [heq, hget] at hnew
  cases hnew

theorem Fresh.addNode (hg : g.Fresh) (hid : ¬ g.Future n.id) : (g.addNode n).Fresh := by
  refine hg.of_grows (.of_eq rfl) (fun id hfuture hnone => ?_) fun _ _ _ hj => Or.inl hj
  rw [get?_addNode, if_neg]
  · exact hnone
  · rintro rfl
    exact hid hfuture

theorem Tidy.addNode {L : Set String} {label : String} (ht : Tidy L label g)
    (hnew : g.nodes.get? n.id = none) (hl : label ≠ n.label) (hL : ∀ K ∈ L, K ≠ n.label) :
    Tidy L label (g.addNode n) := by
  constructor
  · intro id ps hid
    exact ht.coded id ps ((get?_addNode_iff hnew hl).1 hid)
  · intro c a b ha hb
    exact ht.unique c a b ((coded_addNode_iff hnew hl).1 ha) ((coded_addNode_iff hnew hl).1 hb)
  · intro l a b hj hb
    rw [label_addNode_iff hnew hl] at hb ⊢
    exact ht.into l a b hj hb
  · intro l a b hj ha
    rw [label_addNode_iff hnew hl] at ha ⊢
    refine (ht.outOf l a b hj ha).imp_right fun hout => ⟨hout.1, fun K hK hlabel => ?_⟩
    exact hout.2 K hK ((label_addNode_iff hnew (hL K hK)).1 hlabel)
  · intro a b ha
    exact ht.once a b ((label_addNode_iff hnew hl).1 ha)

theorem Shows.addNode {label : String} {pic : Picture} (h : g.Shows label pic)
    (hnew : g.nodes.get? n.id = none) (hl : label ≠ n.label) : (g.addNode n).Shows label pic := by
  refine ⟨fun c ps => (h.properties c ps).trans ?_, fun c p => (h.parent c p).trans ?_,
    fun c s => (h.link c s).trans ?_⟩
  · exact exists_congr fun id => and_congr_left fun _ => (get?_addNode_iff hnew hl).symm
  · simp only [coded_addNode_iff hnew hl]
    rfl
  · simp only [coded_addNode_iff hnew hl]
    rfl

end Arrival

variable {key : HierarchyKey} {codeList : Id} {start ideal g : Graph}

/-- A remnant stays a remnant when a node arrives that is neither of the hierarchy nor of the code
list. -/
theorem LeftBehind.arrival {n : Node} (h : LeftBehind key codeList ideal g)
    (hclone : NodeLabel.hierarchy key ≠ n.label) (hgeneric : NodeLabel.generic codeList ≠ n.label)
    (hnew : g.nodes.get? n.id = none) (hnew' : ideal.nodes.get? n.id = none)
    (hid : ¬ g.Future n.id) : LeftBehind key codeList (ideal.addNode n) (g.addNode n) := by
  obtain ⟨pic, hpic, hremnant⟩ := h.shows
  refine ⟨⟨h.sound.fresh.addNode hid, ?_⟩, ⟨fun id v hv => ?_, fun a ha b => ?_⟩,
    pic, hpic.addNode hnew hclone, hremnant.mono ?_ (fun _ _ _ => Iff.rfl)
      fun c hc => dataCodes_addNode hnew' hc⟩
  · rintro K rfl
    exact (h.sound.tidy _ rfl).addNode hnew hclone fun K hK => hK ▸ hclone
  · rw [get?_addNode, get?_addNode]
    split
    · exact Iff.rfl
    · exact h.sources.nodes id v hv
  · exact h.sources.up a ((label_addNode_iff hnew' hgeneric).1 ha) b
  · exact nodesWithLabel_addNode hnew' hgeneric

/-! ## Histories of builds -/

/-- The graph in memory carries out every mutation. -/
theorem serves_graph (keeps : Graph → Prop) (b : Backend) (key : HierarchyKey) (codeList : Id) :
    Serves Environment.graph id keeps (fun _ => False) b key codeList := by
  constructor
  · intro P Q m hstep _ hkeeps
    exact Achieves.iff_copes.1 (achieves_mutate b (Sharing.stable_alone _ _)
      (Sharing.stable_alone _ _) fun g hg => ⟨fun _ => hkeeps _ (hstep g hg), hstep g hg⟩)
  · intro P Q hstep _ hkeeps
    cases b with
    | gremlin reading writing =>
        have hcall : Achieves graph (.alone keeps) P
            (StoreM.call .edges (.of .gremlin (.mutation (.relateList key codeList)))) fun _ => Q :=
          Achieves.call (Sharing.stable_alone _ _) (fun _ => Sharing.stable_alone _ _) fun g hg =>
            mutation_does (Or.inr rfl) _ ⟨fun _ => hkeeps _ (hstep g hg), hstep g hg⟩
        exact Achieves.iff_copes.1 (hcall.bind fun _ =>
          Achieves.pure (Sharing.stable_alone keeps Q) fun _ hg => hg)
    | cypher retry =>
        exact Achieves.iff_copes.1 (achieves_mutate (.cypher retry) (Sharing.stable_alone _ _)
          (Sharing.stable_alone _ _) fun g hg => ⟨fun _ => hkeeps _ (hstep g hg), hstep g hg⟩)
  · intro P m q post hanswer
    exact Achieves.iff_copes.1 (achieves_ask b.reader (Sharing.stable_alone _ _)
      (fun _ => Sharing.stable_alone _ _) hanswer)

/-- A build that begins with a remnant may be stopped anywhere, and leaves one; and when it is not
stopped it comes to the hierarchy that is wanted. -/
theorem assures_buildBulk (b : Backend) (h : LeftBehind key codeList ideal g) :
    Assures graph (.alone (LeftBehind key codeList ideal)) (Ends (fun report g =>
      report = ideal.bulkReport key codeList ∧ Halfway key codeList ideal
        (· = ideal.instanceOf (ideal.dataCodes (NodeLabel.data key)) codeList) g) fun _ => False)
      (b.buildBulk key codeList).run g :=
  copes_buildBulk (serves_graph _ b key codeList) g h

/-- A data node of the instance of a hierarchy, of whatever dimension, that is not at the same time
a generic node of the code list or a node of the hierarchy. -/
structure DataNode (key : HierarchyKey) (codeList : Id) (n : Node) : Prop where
  data : ∃ dimension, n.label = NodeLabel.data ⟨key.instanceId, dimension⟩
  notGeneric : n.label ≠ NodeLabel.generic codeList
  notClone : n.label ≠ NodeLabel.hierarchy key

/-- What has become of a graph in which bulk builds of one hierarchy went as far as they got, while
data nodes arrived.  It is told together with the graph that got the same nodes and no builds. -/
inductive Rebuilt (key : HierarchyKey) (codeList : Id) (start : Graph) : Graph → Graph → Prop where
  | start : Rebuilt key codeList start start start
  /-- A build was cut off after some of its statements, or came to its end. -/
  | attempt {ideal g g' : Graph} (b : Backend) {rest : Program (Except StoreError BuildReport)}
      (h : Rebuilt key codeList start ideal g)
      (hmoves : ReflTransGen graph.Solo ((b.buildBulk key codeList).run, g) (rest, g')) :
      Rebuilt key codeList start ideal g'
  /-- A data node arrived, under an id that was not in use and is none that builds draw. -/
  | arrival {ideal g : Graph} (n : Node) (h : Rebuilt key codeList start ideal g)
      (hdata : DataNode key codeList n) (hnew : g.nodes.get? n.id = none)
      (hid : ¬ start.Future n.id) :
      Rebuilt key codeList start (ideal.addNode n) (g.addNode n)

theorem grows_call (g : Graph) (m : Method) (st : Statement) : g.Grows (g.call m st).2 := by
  have hperform : g.Grows (g.perform st.operation).2 := by
    cases st.operation with
    | query q => exact .of_eq rfl
    | mutation mutation =>
        have hgrows := grows_mutate g mutation
        unfold perform
        cases hmutate : g.mutate mutation with
        | mk created g' =>
            rw [hmutate] at hgrows
            cases created <;> simpa [hmutate] using hgrows
  unfold call
  cases hfit : m.fit? (g.perform st.operation).1 <;> simpa [hfit] using hperform

theorem grows_moves {α : Type} {c c' : Program α × Graph} (h : ReflTransGen graph.Solo c c') :
    c.2.Grows c'.2 := by
  induction h with
  | refl => exact .of_eq rfl
  | @tail c₁ c₂ _ hmove ih =>
      refine ih.trans ?_
      obtain ⟨p, g⟩ := c₁
      obtain ⟨p', g'⟩ := c₂
      cases hmove with
      | call => exact grows_call _ _ _
      | work => exact grows_call _ _ _
      | skip => exact .of_eq rfl
      | close => exact .of_eq rfl
      | look => exact .of_eq rfl
      | pause => exact .of_eq rfl

/-- What is true at every point of a history. -/
structure Traced (key : HierarchyKey) (codeList : Id) (start ideal g : Graph) : Prop where
  fresh : ideal.Fresh
  free : ∀ id, ideal.label? id ≠ some (NodeLabel.hierarchy key)
  supply : ideal.supply = start.supply
  grows : start.Grows g
  left : LeftBehind key codeList ideal g

theorem Rebuilt.traced (h : Rebuilt key codeList start ideal g) (hfresh : start.Fresh)
    (hfree : ∀ id, start.label? id ≠ some (NodeLabel.hierarchy key)) :
    Traced key codeList start ideal g := by
  induction h with
  | start =>
      have hstart : Stage {NodeLabel.hierarchy key} (NodeLabel.hierarchy key) start Picture.empty
          start := .start hfresh (fun K hK => hK ▸ hfree) rfl
      exact ⟨hfresh, hfree, rfl, .of_eq rfl, hstart.sound, .refl key codeList start,
        Picture.empty, hstart.shows, .empty _ _ _ _⟩
  | attempt b _ hmoves ih =>
      exact ⟨ih.fresh, ih.free, ih.supply, ih.grows.trans (grows_moves hmoves),
        (assures_buildBulk b ih.left).kept ih.left hmoves⟩
  | @arrival ideal g n _ hdata hnew hid ih =>
      -- the graph without builds holds no node under the new id either
      have hnew' : ideal.nodes.get? n.id = none := by
        cases hv : ideal.nodes.get? n.id with
        | none => rfl
        | some v =>
            have hlabel : v.label ≠ NodeLabel.hierarchy key := fun hl =>
              ih.free n.id ((label_of_get? hv).trans (congrArg some hl))
            rw [(ih.left.sources.nodes n.id v hlabel).2 hv] at hnew
            cases hnew
      have hfuture : ¬ ideal.Future n.id := fun hf => hid (by
        unfold Future at hf ⊢
        rwa [ih.supply] at hf)
      have hleft := ih.left.arrival hdata.notClone.symm hdata.notGeneric.symm hnew hnew'
        fun hf => hid (ih.grows.future hf)
      refine ⟨ih.fresh.addNode hfuture, fun id hl => ih.free id ?_, ih.supply,
        ⟨ih.grows.ident, ih.grows.drawn⟩, hleft⟩
      exact (label_addNode_iff hnew' hdata.notClone.symm).1 hl

/-- After any history of builds of a hierarchy and of data that arrived, one build that is not cut
off leaves the hierarchy, and gives the report, of a single build on the starting graph with all the
data nodes. -/
theorem buildBulk_after_rebuilds (b b' : Backend) (key : HierarchyKey) (codeList : Id)
    (start ideal g : Graph) (hfresh : start.Fresh)
    (hfree : ∀ id, start.label? id ≠ some (NodeLabel.hierarchy key))
    (hrebuilt : Rebuilt key codeList start ideal g) :
    graph.Yields (b.buildBulk key codeList).run g fun r g' =>
      (∃ report, r = .ok report) ∧
      r = (graph.run (b'.buildBulk key codeList).run ideal).1 ∧
      g'.outline (NodeLabel.hierarchy key) = (graph.run
        (b'.buildBulk key codeList).run ideal).2.outline (NodeLabel.hierarchy key) ∧
      (∀ a s, g'.label? a = some (NodeLabel.hierarchy key) →
        ¬ g'.Joined EdgeLabel.cloneOf a s) ∧
      (∀ id ps, g'.nodes.get? id = some ⟨NodeLabel.hierarchy key, ps⟩ →
        ps.get? Property.remain = none) := by
  have htraced := hrebuilt.traced hfresh hfree
  obtain ⟨hsingle, hstage⟩ := run_buildBulk b' key codeList htraced.fresh htraced.free
  refine (assures_buildBulk b htraced.left).yields.imp ?_
  rintro (e | report) g' hend
  · exact hend.elim
  · obtain ⟨rfl, hend⟩ := hend
    obtain ⟨_, hpic, rfl⟩ := hend.shows
    have ht := hend.sound.tidy _ rfl
    refine ⟨⟨_, rfl⟩, hsingle.symm, ?_, fun a s ha hj => ?_, fun id ps hid => ?_⟩
    · rw [outline_eq hpic ht, outline_eq hstage.shows (hstage.sound.tidy _ rfl)]
    · obtain ⟨c, hc⟩ := ht.exists_code ha
      exact (hpic.link c s).2 ⟨a, hc, hj⟩
    · obtain ⟨c, hc⟩ := ht.coded id ps hid
      have hps := (hpic.properties c ps).2 ⟨id, hid, hc⟩
      rw [properties_instanceOf (isSome_instanceOf.1 (Option.isSome_iff_exists.2 ⟨ps, hps⟩))] at hps
      obtain ⟨n, -, rfl⟩ := Option.map_eq_some_iff.1 hps
      rw [get?_instanceProperties, if_neg (by decide), get?_cloneProperties]
      rfl

/-- The parent of the code that has data gets data of its own. -/
def parentData : Node :=
  ⟨"z", NodeLabel.data ⟨"i", "x"⟩, Table.ofList [(Property.value, .str "all")]⟩

/-- The two nodes after a build that was cut off when it had sent two statements. -/
def twoCodesCut : Graph :=
  let started := graph.advance
    ((Backend.gremlin (.of 1 1) (.of 1 1)).buildBulk ⟨"i", "x"⟩ "list").run twoCodes
  (graph.advance started.1 started.2).2

/-- The two nodes after a build that was cut off, a whole one, and the arrival of a data node. -/
def twoCodesRebuilt : Graph :=
  (graph.run ((Backend.cypher .standard).buildBulk ⟨"i", "x"⟩ "list").run twoCodesCut).2.addNode
    parentData

theorem rebuilt_twoCodes :
    Rebuilt ⟨"i", "x"⟩ "list" twoCodes (twoCodes.addNode parentData) twoCodesRebuilt := by
  have hstart : Rebuilt ⟨"i", "x"⟩ "list" twoCodes twoCodes twoCodes := .start
  have hcut : Rebuilt ⟨"i", "x"⟩ "list" twoCodes twoCodes twoCodesCut :=
    hstart.attempt (.gremlin (.of 1 1) (.of 1 1)) ((solo_advance _ _).trans (solo_advance _ _))
  exact (hcut.attempt (.cypher .standard) (solo_run _ _)).arrival parentData
    ⟨⟨"x", rfl⟩, by decide +kernel, by decide +kernel⟩ (by decide +kernel)
    (not_future_of_short rfl (by decide +kernel))

theorem buildBulk_after_rebuilds_twoCodes :
    graph.Yields ((Backend.cypher .standard).buildBulk ⟨"i", "x"⟩ "list").run twoCodesRebuilt
      fun r g' =>
        (∃ report, r = .ok report) ∧
        r = (graph.run ((Backend.cypher .standard).buildBulk ⟨"i", "x"⟩ "list").run
          (twoCodes.addNode parentData)).1 ∧
        g'.outline (NodeLabel.hierarchy ⟨"i", "x"⟩) = (graph.run
          ((Backend.cypher .standard).buildBulk ⟨"i", "x"⟩ "list").run
            (twoCodes.addNode parentData)).2.outline (NodeLabel.hierarchy ⟨"i", "x"⟩) ∧
        (∀ a s, g'.label? a = some (NodeLabel.hierarchy ⟨"i", "x"⟩) →
          ¬ g'.Joined EdgeLabel.cloneOf a s) ∧
        (∀ id ps, g'.nodes.get? id = some ⟨NodeLabel.hierarchy ⟨"i", "x"⟩, ps⟩ →
          ps.get? Property.remain = none) :=
  buildBulk_after_rebuilds (.cypher .standard) (.cypher .standard) ⟨"i", "x"⟩ "list" twoCodes
    (twoCodes.addNode parentData) twoCodesRebuilt twoCodes_fresh
    (label?_ne_of_ids (by decide +kernel)) rebuilt_twoCodes

/-! ## Data nodes that are generic nodes -/

/-- The hierarchy whose data nodes bear the label of the generic nodes of a code list. -/
def collidingKey : HierarchyKey := ⟨"generic", "hierarchy_node_list"⟩

/-- A node that is a generic node and a data node at the same time. -/
def colliding : Graph where
  nodes := Table.ofList [("b", ⟨NodeLabel.data collidingKey,
    Table.ofList [(Property.label, .str "old"), (Property.value, .str "")]⟩)]
  edges := []
  supply := ⟨longerAndLonger 2, 0⟩

/-- A data node that arrives later, and comes first among the generic nodes. -/
def lateNode : Node :=
  ⟨"a", NodeLabel.data collidingKey, Table.ofList [(Property.value, .str "")]⟩

/-- Where a data node that arrives is a generic node as well, a build that is started anew leaves
another hierarchy than a single one: the clone keeps the label of the node that it was made from. -/
theorem rebuild_keeps_stale_label :
    colliding.Fresh ∧ (∀ id, colliding.label? id ≠ some (NodeLabel.hierarchy collidingKey)) ∧
    ¬ colliding.Future lateNode.id ∧
    (graph.run ((Backend.cypher .standard).buildBulk collidingKey "list").run
      ((graph.run ((Backend.cypher .standard).buildBulk collidingKey "list").run
        colliding).2.addNode lateNode)).2.outline (NodeLabel.hierarchy collidingKey) ≠
    (graph.run ((Backend.cypher .standard).buildBulk collidingKey "list").run
      (colliding.addNode lateNode)).2.outline (NodeLabel.hierarchy collidingKey) := by
  refine ⟨fresh_of_short rfl (by decide +kernel) (by decide +kernel),
    label?_ne_of_ids (by decide +kernel), not_future_of_short rfl (by decide +kernel), fun h => ?_⟩
  have hlabels := congrArg
    (fun o => (o.nodes (some "")).map fun ps => (ps.get? Property.label).isSome) h
  exact absurd hlabels (by decide +kernel)

end Graph
end InstanceHierarchy
