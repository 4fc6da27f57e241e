import InstanceHierarchy.Proofs.Bulk
import InstanceHierarchy.Proofs.Outline
import InstanceHierarchy.Proofs.Tables

/-!
# What bulk builds leave behind

A bulk build always succeeds on a graph without faults, with either kind of backend.  When the codes
of the code list are distinct, the hierarchy that it leaves is described node by node; and two builds
of different hierarchies that are carried out together leave what each leaves alone.
-/

namespace InstanceHierarchy
namespace Graph

open Relation Environment

/-! ## One build -/

/-- A data node of the instance has the value. -/
def HasValue (g : Graph) (key : HierarchyKey) (c : String) : Prop :=
  ∃ n ∈ g.nodesWithLabel (NodeLabel.data key), n.text? Property.value = some c

/-- The nodes with a label carry string codes, no two of them the same. -/
structure DistinctCodes (g : Graph) (label : String) : Prop where
  coded : ∀ id, g.label? id = some label → ∃ c, g.Coded label c id
  unique : ∀ c a b, g.Coded label c a → g.Coded label c b → a = b

/-- A parent edge leads from one node with a label to another one. -/
def UpWithin (g : Graph) (label : String) (a b : Id) : Prop :=
  g.Up a b ∧ g.label? a = some label ∧ g.label? b = some label

/-- The code is that of a generic node to which a chain of parent edges within the code list,
possibly an empty one, leads from a generic node whose code is the value of a data node. -/
def Wanted (g : Graph) (key : HierarchyKey) (codeList : Id) (c : String) : Prop :=
  ∃ d s t, g.HasValue key d ∧ g.Coded (NodeLabel.generic codeList) d s ∧
    g.Coded (NodeLabel.generic codeList) c t ∧
    ReflTransGen (g.UpWithin (NodeLabel.generic codeList)) s t

/-- What is stored with the clone for a code after a build. -/
structure CloneOutcome (g g' : Graph) (key : HierarchyKey) (codeList : Id) (c : String) (id : Id)
    (ps : Properties) : Prop where
  hasData : ∃ flag, ps.get? Property.hasData = some (.bool flag) ∧
    (flag = true ↔ g.HasValue key c)
  inList : ps.get? Property.codeList = some (.str codeList)
  labelled : ∀ s source, g.nodes.get? s = some ⟨NodeLabel.generic codeList, source⟩ →
    codeIn source = some c → ps.get? Property.label = source.get? Property.label
  children : ps.get? Property.numberOfChildren =
    some (.int (Set.ncard { a | g'.label? a = some (NodeLabel.hierarchy key) ∧ g'.Up a id }))
  nothingElse : ∀ k, k ∉ [Property.code, Property.hasData, Property.codeList, Property.label,
    Property.numberOfChildren] → ps.get? k = none

/-- What a bulk build makes of a graph. -/
structure BulkOutcome (g g' : Graph) (key : HierarchyKey) (codeList : Id)
    (report : BuildReport) : Prop where
  /-- There is exactly one clone for every wanted code, -/
  exactlyOne : ∀ c, g.Wanted key codeList c → ∃! id, g'.Coded (NodeLabel.hierarchy key) c id
  /-- and no other node. -/
  only : ∀ id, g'.label? id = some (NodeLabel.hierarchy key) →
    ∃ c, g.Wanted key codeList c ∧ g'.Coded (NodeLabel.hierarchy key) c id
  clone : ∀ c id ps, g'.nodes.get? id = some ⟨NodeLabel.hierarchy key, ps⟩ → codeIn ps = some c →
    CloneOutcome g g' key codeList c id ps
  parents : ∀ c p a b s t, g'.Coded (NodeLabel.hierarchy key) c a →
    g'.Coded (NodeLabel.hierarchy key) p b → g.Coded (NodeLabel.generic codeList) c s →
    g.Coded (NodeLabel.generic codeList) p t → (g'.Up a b ↔ g.Up s t)
  once : ∀ a b, g'.label? a = some (NodeLabel.hierarchy key) →
    g'.tally EdgeLabel.hasParent a b ≤ 1
  unlinked : ∀ a b, g'.label? a = some (NodeLabel.hierarchy key) →
    ¬ g'.Joined EdgeLabel.cloneOf a b
  report : report =
    { key, codeList
      idDriven := false
      codesWithData := (g.dataCodes (NodeLabel.data key)).length
      clonedNodes := none
      nodeCount := (g'.idsWithLabel (NodeLabel.hierarchy key)).length }

theorem mem_dataCodes {g : Graph} {key : HierarchyKey} {c : String} :
    c ∈ g.dataCodes (NodeLabel.data key) ↔ g.HasValue key c := by
  unfold dataCodes HasValue
  rw [TextSet.mem_ofList, List.mem_filterMap]

variable {g : Graph} {label : String}

/-- With distinct codes the nodes are told apart by their codes. -/
theorem DistinctCodes.cloneCode_iff (h : g.DistinctCodes label) {n : Node} {c : String}
    (hn : n ∈ g.nodesWithLabel label) : n.cloneCode = c ↔ g.Coded label c n.id := by
  obtain ⟨rfl, hget⟩ := mem_nodesWithLabel.1 hn
  obtain ⟨d, ps, hps, hd⟩ := h.coded n.id (label_of_get? hget)
  rw [hget] at hps
  cases hps
  have hcode : n.cloneCode = d := by
    unfold Node.cloneCode
    show (codeIn n.properties).getD "" = d
    rw [hd]
    rfl
  rw [hcode]
  constructor
  · rintro rfl
    exact ⟨n.properties, hget, hd⟩
  · rintro ⟨ps, hps, hc⟩
    rw [hget] at hps
    cases hps
    rw [hd] at hc
    exact Option.some.inj hc

theorem DistinctCodes.coded_iff (h : g.DistinctCodes label) {c : String} {id : Id} :
    g.Coded label c id ↔ ∃ n ∈ g.nodesWithLabel label, n.id = id ∧ n.cloneCode = c := by
  constructor
  · intro hc
    have ⟨ps, hps, _⟩ := hc
    have hn : (⟨id, label, ps⟩ : Node) ∈ g.nodesWithLabel label := mem_nodesWithLabel.2 ⟨rfl, hps⟩
    exact ⟨_, hn, rfl, (h.cloneCode_iff hn).2 hc⟩
  · rintro ⟨n, hn, rfl, hc⟩
    exact (h.cloneCode_iff hn).1 hc

theorem DistinctCodes.source?_eq (h : g.DistinctCodes label) {c : String} {s : Id}
    {ps : Properties} (hs : g.nodes.get? s = some ⟨label, ps⟩) (hc : codeIn ps = some c) :
    g.source? label c = some ⟨s, label, ps⟩ := by
  have hmem : (⟨s, label, ps⟩ : Node) ∈ g.nodesWithLabel label := mem_nodesWithLabel.2 ⟨rfl, hs⟩
  have hsome : (g.source? label c).isSome :=
    source?_isSome.2 ⟨_, hmem, (h.cloneCode_iff hmem).2 ⟨ps, hs, hc⟩⟩
  obtain ⟨n, hn⟩ := Option.isSome_iff_exists.1 hsome
  obtain ⟨hnmem, hncode⟩ := source?_eq_some hn
  have hid := h.unique c n.id s ((h.cloneCode_iff hnmem).1 hncode) ⟨ps, hs, hc⟩
  obtain ⟨hl, hget⟩ := mem_nodesWithLabel.1 hnmem
  rw [hid, hs] at hget
  rw [hn]
  cases n
  cases hid
  cases hget
  rfl

theorem DistinctCodes.codeParent_iff (h : g.DistinctCodes label) {c p : String} :
    g.CodeParent label c p ↔ ∃ s t, g.Coded label c s ∧ g.Coded label p t ∧ g.Up s t := by
  constructor
  · rintro ⟨n, hn, m, hm, hup, hc, hp⟩
    exact ⟨n.id, m.id, (h.cloneCode_iff hn).1 hc, (h.cloneCode_iff hm).1 hp, hup⟩
  · rintro ⟨s, t, hs, ht, hup⟩
    obtain ⟨n, hn, rfl, hc⟩ := h.coded_iff.1 hs
    obtain ⟨m, hm, rfl, hp⟩ := h.coded_iff.1 ht
    exact ⟨n, hn, m, hm, hup, hc, hp⟩

/-- Chains of parent edges between codes are chains between their nodes. -/
theorem DistinctCodes.chain_iff (h : g.DistinctCodes label) {d c : String} :
    (∃ s t, g.Coded label d s ∧ g.Coded label c t ∧ ReflTransGen (g.UpWithin label) s t) ↔
      (∃ s, g.Coded label d s) ∧ ReflTransGen (g.CodeParent label) d c := by
  constructor
  · rintro ⟨s, t, hs, ht, hchain⟩
    refine ⟨⟨s, hs⟩, ?_⟩
    -- every node on the way has a code
    induction hchain generalizing c with
    | refl => exact (hs.functional ht).2 ▸ .refl
    | @tail x y _ hup ih =>
        obtain ⟨hup, hx, -⟩ := hup
        obtain ⟨q, hq⟩ := h.coded x hx
        exact (ih hq).tail (h.codeParent_iff.2 ⟨x, y, hq, ht, hup⟩)
  · rintro ⟨⟨s, hs⟩, hchain⟩
    -- every code on the way has one node, where the edges meet
    induction hchain with
    | refl => exact ⟨s, s, hs, hs, .refl⟩
    | tail _ hp ih =>
        obtain ⟨s, x, hs, hx, hchain⟩ := ih
        obtain ⟨x', t, hx', ht, hup⟩ := h.codeParent_iff.1 hp
        obtain rfl := h.unique _ x x' hx hx'
        exact ⟨s, t, hs, ht, hchain.tail ⟨hup, hx.label, ht.label⟩⟩

theorem DistinctCodes.relevant_iff {key : HierarchyKey} {codeList : Id}
    (h : g.DistinctCodes (NodeLabel.generic codeList)) {c : String} :
    g.Relevant (NodeLabel.generic codeList) (g.dataCodes (NodeLabel.data key)) c ↔
      g.Wanted key codeList c := by
  have hdata : ∀ d, g.CodeHasData (NodeLabel.generic codeList) (g.dataCodes (NodeLabel.data key)) d ↔
      g.HasValue key d ∧ ∃ s, g.Coded (NodeLabel.generic codeList) d s := by
    intro d
    unfold CodeHasData
    rw [mem_dataCodes]
    refine and_congr_right fun _ => ?_
    constructor
    · rintro ⟨n, hn, hd⟩
      exact ⟨n.id, (h.cloneCode_iff hn).1 hd⟩
    · rintro ⟨s, hs⟩
      obtain ⟨n, hn, -, hd⟩ := h.coded_iff.1 hs
      exact ⟨n, hn, hd⟩
  unfold Relevant Wanted
  refine exists_congr fun d => ?_
  rw [hdata, and_assoc, ← h.chain_iff]
  constructor
  · rintro ⟨hd, s, t, hs, ht, hchain⟩
    exact ⟨s, t, hd, hs, ht, hchain⟩
  · rintro ⟨s, t, hd, hs, ht, hchain⟩
    exact ⟨hd, s, t, hs, ht, hchain⟩

/-- The properties of a clone in the wanted hierarchy. -/
theorem cloneOutcome_of_shows {g' : Graph} {key : HierarchyKey} {codeList : Id}
    (hg : g.DistinctCodes (NodeLabel.generic codeList))
    (ht : Tidy {NodeLabel.hierarchy key} (NodeLabel.hierarchy key) g')
    (h : g'.Shows (NodeLabel.hierarchy key)
      (g.instanceOf (g.dataCodes (NodeLabel.data key)) codeList)) {c : String} {id : Id}
    {ps : Properties} (hid : g'.nodes.get? id = some ⟨NodeLabel.hierarchy key, ps⟩)
    (hc : codeIn ps = some c) : CloneOutcome g g' key codeList c id ps := by
  have hps := (h.properties c ps).2 ⟨id, hid, hc⟩
  have hrel : g.Relevant (NodeLabel.generic codeList) (g.dataCodes (NodeLabel.data key)) c :=
    isSome_instanceOf.1 (Option.isSome_iff_exists.2 ⟨ps, hps⟩)
  rw [properties_instanceOf hrel] at hps
  obtain ⟨n, hn, rfl⟩ := Option.map_eq_some_iff.1 hps
  constructor
  · refine ⟨decide (c ∈ g.dataCodes (NodeLabel.data key)), ?_, ?_⟩
    · rw [get?_instanceProperties, if_neg (by decide), get?_cloneProperties, if_neg (by decide),
        if_pos rfl]
    · rw [decide_eq_true_eq]
      exact mem_dataCodes
  · rw [get?_instanceProperties, if_neg (by decide), get?_cloneProperties, if_neg (by decide),
      if_neg (by decide), if_pos rfl]
  · intro s source hs hcode
    rw [hg.source?_eq hs hcode] at hn
    cases hn
    rw [get?_instanceProperties, if_neg (by decide), get?_cloneProperties, if_neg (by decide),
      if_neg (by decide), if_neg (by decide), if_pos rfl]
  · have hcoded : g'.Coded (NodeLabel.hierarchy key) c id := ⟨_, hid, hc⟩
    -- the number that is stored counts codes, the number that is promised counts nodes
    have hchildren : g.childCodes (NodeLabel.generic codeList)
        (g.dataCodes (NodeLabel.data key)) c =
          { k | (g.instanceOf (g.dataCodes (NodeLabel.data key)) codeList).parent k c } := by
      ext k
      exact ⟨fun hk => ⟨hk.1, hk.2, hrel⟩, fun hk => ⟨hk.1, hk.2.1⟩⟩
    rw [get?_instanceProperties, if_pos rfl, hchildren, ncard_children ht hcoded.label,
      length_sources h ht hcoded]
  · intro k hk
    simp only [List.mem_cons, List.not_mem_nil, or_false, not_or] at hk
    obtain ⟨hcode, hdata, hlist, hlabel, hnumber⟩ := hk
    rw [get?_instanceProperties, if_neg fun h => hnumber h.symm, get?_cloneProperties,
      if_neg hcode, if_neg hdata, if_neg hlist, if_neg hlabel]

/-- The hierarchy that is wanted of a build, node by node. -/
theorem bulkOutcome_of_shows {g' : Graph} {key : HierarchyKey} {codeList : Id}
    (hg : g.DistinctCodes (NodeLabel.generic codeList))
    (ht : Tidy {NodeLabel.hierarchy key} (NodeLabel.hierarchy key) g')
    (h : g'.Shows (NodeLabel.hierarchy key)
      (g.instanceOf (g.dataCodes (NodeLabel.data key)) codeList)) :
    BulkOutcome g g' key codeList (g.bulkReport key codeList) := by
  have hrel : ∀ {c id}, g'.Coded (NodeLabel.hierarchy key) c id →
      g.Relevant (NodeLabel.generic codeList) (g.dataCodes (NodeLabel.data key)) c := by
    intro c id hid
    obtain ⟨ps, hps, -⟩ := h.properties_of_coded hid
    exact isSome_instanceOf.1 (Option.isSome_iff_exists.2 ⟨ps, hps⟩)
  constructor
  · intro c hc
    obtain ⟨ps, hps⟩ := Option.isSome_iff_exists.1 (isSome_instanceOf.2 (hg.relevant_iff.2 hc))
    obtain ⟨id, -, hid⟩ := h.exists_coded hps
    exact ⟨id, hid, fun a ha => ht.unique c a id ha hid⟩
  · intro id hid
    obtain ⟨c, hc⟩ := ht.exists_code hid
    exact ⟨c, hg.relevant_iff.1 (hrel hc), hc⟩
  · exact fun c id ps hid hc => cloneOutcome_of_shows hg ht h hid hc
  · intro c p a b s t ha hb hs ht'
    constructor
    · intro hup
      obtain ⟨s', t', hs', ht'', hup'⟩ := hg.codeParent_iff.1 (h.parent_of_up ha hb hup).1
      obtain rfl := hg.unique c s s' hs hs'
      obtain rfl := hg.unique p t t' ht' ht''
      exact hup'
    · intro hup
      exact h.up_of_parent ht ha hb ⟨hg.codeParent_iff.2 ⟨s, t, hs, ht', hup⟩, hrel ha, hrel hb⟩
  · exact ht.once
  · intro a b ha hj
    obtain ⟨c, hc⟩ := ht.exists_code ha
    exact (h.link c b).2 ⟨a, hc, hj⟩
  · unfold bulkReport
    rw [length_idsWithLabel h ht]

theorem DistinctCodes.of_nodup (hcoded : ∀ n ∈ g.nodesWithLabel label, n.text? Property.code ≠ none)
    (hnodup : ((g.nodesWithLabel label).map (·.text? Property.code)).Nodup) :
    g.DistinctCodes label := by
  constructor
  · intro id hid
    obtain ⟨ps, hps⟩ := label?_eq_some_iff.1 hid
    have hn : (⟨id, label, ps⟩ : Node) ∈ g.nodesWithLabel label := mem_nodesWithLabel.2 ⟨rfl, hps⟩
    obtain ⟨c, hc⟩ := Option.ne_none_iff_exists'.1 (hcoded _ hn)
    exact ⟨c, ps, hps, hc⟩
  · rintro c a b ⟨ps, hps, hc⟩ ⟨qs, hqs, hd⟩
    have hn : (⟨a, label, ps⟩ : Node) ∈ g.nodesWithLabel label := mem_nodesWithLabel.2 ⟨rfl, hps⟩
    have hm : (⟨b, label, qs⟩ : Node) ∈ g.nodesWithLabel label := mem_nodesWithLabel.2 ⟨rfl, hqs⟩
    have heq := List.inj_on_of_nodup_map hnodup hn hm (hc.trans hd.symm)
    exact congrArg Node.id heq

theorem label?_ne_of_ids (h : g.idsWithLabel label = []) (id : Id) : g.label? id ≠ some label := by
  intro hid
  have hmem := mem_idsWithLabel.2 hid
  rw [h] at hmem
  exact List.not_mem_nil hmem

/-- A build of a hierarchy that is not there yet begins with the empty picture. -/
theorem Stage.start {L : Set String} {key : HierarchyKey} (hfresh : g.Fresh)
    (hfree : ∀ K ∈ L, ∀ id, g.label? id ≠ some K) (hL : NodeLabel.hierarchy key ∈ L) :
    Stage L (NodeLabel.hierarchy key) g Picture.empty g :=
  ⟨.start hfresh hfree, .refl L g, shows_empty (hfree _ hL)⟩

/-- What a bulk build alone leaves. -/
theorem run_buildBulk (b : Backend) (key : HierarchyKey) (codeList : Id) (hfresh : g.Fresh)
    (hfree : ∀ id, g.label? id ≠ some (NodeLabel.hierarchy key)) :
    (Environment.graph.run (b.buildBulk key codeList).run g).1 =
        .ok (g.bulkReport key codeList) ∧
      Stage {NodeLabel.hierarchy key} (NodeLabel.hierarchy key) g
        (g.instanceOf (g.dataCodes (NodeLabel.data key)) codeList)
        (Environment.graph.run (b.buildBulk key codeList).run g).2 := by
  have hstart : Stage {NodeLabel.hierarchy key} (NodeLabel.hierarchy key) g Picture.empty g :=
    .start hfresh (fun K hK => hK ▸ hfree) rfl
  obtain ⟨report, hreport, rfl, hstage⟩ :=
    (achieves_buildBulk b (apart_alone key codeList) g hstart).yields.run
  exact ⟨hreport, hstage⟩

/-- A bulk build of a hierarchy that is not there yet succeeds, and it leaves exactly the wanted
hierarchy. -/
theorem buildBulk_outcome (b : Backend) (key : HierarchyKey) (codeList : Id) (g : Graph)
    (hfresh : g.Fresh) (hcodes : g.DistinctCodes (NodeLabel.generic codeList))
    (hfree : ∀ id, g.label? id ≠ some (NodeLabel.hierarchy key)) :
    ∃ report g', Environment.graph.run (b.buildBulk key codeList).run g = (.ok report, g') ∧
      BulkOutcome g g' key codeList report := by
  obtain ⟨hreport, hstage⟩ := run_buildBulk b key codeList hfresh hfree
  exact ⟨g.bulkReport key codeList, _, Prod.ext hreport rfl,
    bulkOutcome_of_shows hcodes (hstage.sound.tidy _ rfl) hstage.shows⟩

/-- A generic hierarchy of two nodes, of which the child has data for two dimensions. -/
def twoCodes : Graph where
  nodes := Table.ofList
    [("a", ⟨NodeLabel.generic "list", Table.ofList [(Property.code, .str "all")]⟩),
      ("b", ⟨NodeLabel.generic "list", Table.ofList [(Property.code, .str "part")]⟩),
      ("x", ⟨NodeLabel.data ⟨"i", "x"⟩, Table.ofList [(Property.value, .str "part")]⟩),
      ("y", ⟨NodeLabel.data ⟨"i", "y"⟩, Table.ofList [(Property.value, .str "part")]⟩)]
  edges := [⟨⟨"e", EdgeLabel.hasParent, "b", "a"⟩, .empty⟩]
  supply := ⟨longerAndLonger 2, 0⟩

theorem twoCodes_fresh : twoCodes.Fresh :=
  fresh_of_short rfl (by decide +kernel) (by decide +kernel)

theorem twoCodes_distinct : twoCodes.DistinctCodes (NodeLabel.generic "list") :=
  .of_nodup (by decide +kernel) (by decide +kernel)

theorem buildBulk_outcome_twoCodes : ∃ report g',
    Environment.graph.run ((Backend.cypher .standard).buildBulk ⟨"i", "x"⟩ "list").run twoCodes =
        (.ok report, g') ∧
      BulkOutcome twoCodes g' ⟨"i", "x"⟩ "list" report :=
  buildBulk_outcome (.cypher .standard) ⟨"i", "x"⟩ "list" twoCodes twoCodes_fresh twoCodes_distinct
    (label?_ne_of_ids (by decide +kernel))

/-! ## Two builds at once -/

/-- However the store calls of two bulk builds of different hierarchies alternate, both builds
succeed with the reports and leave the hierarchies of the builds alone. -/
theorem buildBulk_beside_buildBulk (b b' : Backend) (key key' : HierarchyKey) (codeList codeList' : Id)
    (g : Graph) (hfresh : g.Fresh) (hne : NodeLabel.hierarchy key ≠ NodeLabel.hierarchy key')
    (hdata : NodeLabel.data key ≠ NodeLabel.hierarchy key')
    (hdata' : NodeLabel.data key' ≠ NodeLabel.hierarchy key)
    (hfree : ∀ id, g.label? id ≠ some (NodeLabel.hierarchy key))
    (hfree' : ∀ id, g.label? id ≠ some (NodeLabel.hierarchy key')) :
    Environment.graph.YieldBoth (b.buildBulk key codeList).run (b'.buildBulk key' codeList').run g
      fun r r' g' =>
        (∃ report report', r = .ok report ∧ r' = .ok report') ∧
        r = (Environment.graph.run (b.buildBulk key codeList).run g).1 ∧
        r' = (Environment.graph.run (b'.buildBulk key' codeList').run g).1 ∧
        g'.outline (NodeLabel.hierarchy key) = (Environment.graph.run
          (b.buildBulk key codeList).run g).2.outline (NodeLabel.hierarchy key) ∧
        g'.outline (NodeLabel.hierarchy key') = (Environment.graph.run
          (b'.buildBulk key' codeList').run g).2.outline (NodeLabel.hierarchy key') := by
  obtain ⟨halone, hstage⟩ := run_buildBulk b key codeList hfresh hfree
  obtain ⟨halone', hstage'⟩ := run_buildBulk b' key' codeList' hfresh hfree'
  have hfrees : ∀ K ∈ ({NodeLabel.hierarchy key, NodeLabel.hierarchy key'} : Set String),
      ∀ id, g.label? id ≠ some K := Set.forall_mem_insert.2 ⟨hfree, fun K hK => hK ▸ hfree'⟩
  have hapart := apart_pair hdata codeList
  have hapart' := apart_pair hdata' codeList'
  rw [Set.pair_comm] at hapart'
  -- each build spares the hierarchy of the other one, which is all that the other one relies on
  have hboth := Assures.yieldBoth (building_compatible (Or.inr rfl) hne.symm)
    (building_compatible (Or.inl rfl) hne)
    (achieves_buildBulk b hapart g (.start hfresh hfrees (Or.inl rfl)))
    (achieves_buildBulk b' hapart' g (.start hfresh hfrees (Or.inr rfl)))
  refine hboth.imp ?_
  rintro r r' g' ⟨⟨report, rfl, rfl, h⟩, report', rfl, rfl, h'⟩
  refine ⟨⟨_, _, rfl, rfl⟩, halone.symm, halone'.symm, ?_, ?_⟩
  · rw [outline_eq h.shows (h.sound.tidy _ (Or.inl rfl)),
      outline_eq hstage.shows (hstage.sound.tidy _ rfl)]
  · rw [outline_eq h'.shows (h'.sound.tidy _ (Or.inr rfl)),
      outline_eq hstage'.shows (hstage'.sound.tidy _ rfl)]

theorem buildBulk_beside_buildBulk_twoCodes :
    Environment.graph.YieldBoth ((Backend.cypher .standard).buildBulk ⟨"i", "x"⟩ "list").run
      ((Backend.gremlin (.of 1 1) (.of 1 1)).buildBulk ⟨"i", "y"⟩ "list").run twoCodes
      fun r r' g' =>
        (∃ report report', r = .ok report ∧ r' = .ok report') ∧
        r = (Environment.graph.run
          ((Backend.cypher .standard).buildBulk ⟨"i", "x"⟩ "list").run twoCodes).1 ∧
        r' = (Environment.graph.run
          ((Backend.gremlin (.of 1 1) (.of 1 1)).buildBulk ⟨"i", "y"⟩ "list").run twoCodes).1 ∧
        g'.outline (NodeLabel.hierarchy ⟨"i", "x"⟩) = (Environment.graph.run
          ((Backend.cypher .standard).buildBulk ⟨"i", "x"⟩ "list").run twoCodes).2.outline
            (NodeLabel.hierarchy ⟨"i", "x"⟩) ∧
        g'.outline (NodeLabel.hierarchy ⟨"i", "y"⟩) = (Environment.graph.run
          ((Backend.gremlin (.of 1 1) (.of 1 1)).buildBulk ⟨"i", "y"⟩ "list").run
            twoCodes).2.outline (NodeLabel.hierarchy ⟨"i", "y"⟩) :=
  buildBulk_beside_buildBulk (.cypher .standard) (.gremlin (.of 1 1) (.of 1 1)) ⟨"i", "x"⟩
    ⟨"i", "y"⟩ "list" "list" twoCodes twoCodes_fresh (by decide +kernel) (by decide +kernel)
    (by decide +kernel) (label?_ne_of_ids (by decide +kernel)) (label?_ne_of_ids (by decide +kernel))

end Graph
end InstanceHierarchy
