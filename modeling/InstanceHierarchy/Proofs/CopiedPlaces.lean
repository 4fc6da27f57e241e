import InstanceHierarchy.Proofs.CodeLists
import InstanceHierarchy.Proofs.IdBuildDisturbance
import InstanceHierarchy.Proofs.Reading

/-!
# Places that clones take over

The place of a code is stored with the edge that links the code to its code list.  A build from ids
carries it to a clone along the clone edge, an edge from the source to the code, which the build
makes itself, and the edge to the list; it takes the first place that it comes upon, whatever that
is.  The reads of the code list never see the clones: they sort the members, drop repeats and send
only whole numbers.

Both follow what the edges say.  They agree where the edges say one thing about each code: where no
two nodes of the list stand for one code, no two edges link one of them, and no source is linked to a
code beforehand.
-/

namespace InstanceHierarchy

namespace Graph

variable {g : Graph} {codeList : Id}

/-! ## What a code list says of a code -/

/-- A code is in a code list, with the place or without one. -/
def Stands (g : Graph) (codeList : Id) (c : String) (place : Option Int) : Prop :=
  ∃ e n, g.Lists codeList e n ∧ n.text? Property.value = some c ∧ e.place = place

/-- A code list says at most one thing about each code. -/
structure Unambiguous (g : Graph) (codeList : Id) : Prop where
  codes : ∀ n ∈ g.nodesWithLabel (NodeLabel.code codeList),
    ∀ m ∈ g.nodesWithLabel (NodeLabel.code codeList), ∀ c,
      n.text? Property.value = some c → m.text? Property.value = some c → n.id = m.id
  edges : ∀ e e' n, g.Lists codeList e n → g.Lists codeList e' n → e = e'

/-- A code list whose codes have distinct values and one edge each is not ambiguous. -/
theorem Unambiguous.of_distinct
    (hcodes : ∀ n ∈ g.nodesWithLabel (NodeLabel.code codeList),
      ∀ m ∈ g.nodesWithLabel (NodeLabel.code codeList),
        (n.text? Property.value).isSome → n.text? Property.value = m.text? Property.value →
          n.id = m.id)
    (hedges : ((g.edgesWithLabel EdgeLabel.usedBy).map (·.source)).Nodup) :
    g.Unambiguous codeList := by
  constructor
  · intro n hn m hm c hc hc'
    exact hcodes n hn m hm (Option.isSome_iff_exists.2 ⟨c, hc⟩) (hc.trans hc'.symm)
  · intro e e' n h h'
    have hmem : ∀ {e}, g.Lists codeList e n → e ∈ g.edgesWithLabel EdgeLabel.usedBy :=
      fun h => List.mem_filter.2 ⟨h.edge, decide_eq_true h.label⟩
    have hsource : e.source = e'.source :=
      (node?_eq_some.1 h.source).1.symm.trans (node?_eq_some.1 h'.source).1
    exact List.inj_on_of_nodup_map hedges (hmem h) (hmem h') hsource

theorem Lists.mem_codes {e : StoredEdge} {n : Node} (h : g.Lists codeList e n) :
    n ∈ g.nodesWithLabel (NodeLabel.code codeList) := by
  obtain ⟨hid, hget⟩ := node?_eq_some.1 h.source
  exact mem_nodesWithLabel.2 ⟨h.code, hid ▸ hget⟩

/-- A table of places says nothing that the code list does not say. -/
theorem stands_of_get? {codes : List String} {c : String} {place : Option Int}
    (h : (Table.ofList ((g.listMembers codeList).filterMap (placed? codes))).get? c = some place) :
    g.Stands codeList c place := by
  rw [Table.get?_ofList] at h
  obtain ⟨⟨c', place'⟩, hlast, rfl⟩ := Option.map_eq_some_iff.1 h
  obtain ⟨hmem, hkey⟩ := List.mem_filter.1 (List.mem_of_getLast? hlast)
  obtain rfl : c' = c := of_decide_eq_true hkey
  obtain ⟨m, hm, hplaced⟩ := List.mem_filterMap.1 hmem
  obtain ⟨hvalue, -, rfl⟩ := placed?_eq_some.1 hplaced
  obtain ⟨e, he, hplace⟩ := lists_of_mem hm
  exact ⟨e, m.1, he, hvalue, hplace⟩

namespace Unambiguous

variable (hone : g.Unambiguous codeList)

include hone

theorem lists_eq {e e' : StoredEdge} {n n' : Node} {c : String} (h : g.Lists codeList e n)
    (h' : g.Lists codeList e' n') (hc : n.text? Property.value = some c)
    (hc' : n'.text? Property.value = some c) : e = e' := by
  obtain rfl := h.eq_of_id h' (hone.codes n h.mem_codes n' h'.mem_codes c hc hc')
  exact hone.edges e e' n h h'

theorem place_eq {c : String} {place place' : Option Int} (h : g.Stands codeList c place)
    (h' : g.Stands codeList c place') : place = place' := by
  obtain ⟨e, n, he, hc, rfl⟩ := h
  obtain ⟨e', n', he', hc', rfl⟩ := h'
  rw [hone.lists_eq he he' hc hc']

/-- The first node with a value is the only one. -/
theorem codeNode?_eq_some {c : String} {n : Node} : g.codeNode? codeList c = some n ↔
    n ∈ g.nodesWithLabel (NodeLabel.code codeList) ∧ n.text? Property.value = some c := by
  have hfound : ∀ m, g.codeNode? codeList c = some m →
      m ∈ g.nodesWithLabel (NodeLabel.code codeList) ∧ m.text? Property.value = some c := by
    intro m hm
    have htest := List.find?_some hm
    exact ⟨List.mem_of_find?_eq_some hm, of_decide_eq_true htest⟩
  constructor
  · exact hfound n
  · rintro ⟨hn, hc⟩
    have hsome : (g.codeNode? codeList c).isSome := by
      unfold codeNode?
      exact List.find?_isSome.2 ⟨n, hn, decide_eq_true hc⟩
    obtain ⟨m, hm⟩ := Option.isSome_iff_exists.1 hsome
    obtain ⟨hmem, hvalue⟩ := hfound m hm
    rw [hm, nodesWithLabel_inj hmem hn (hone.codes m hmem n hn c hvalue hc)]

/-- A table of places says what the code list says of the codes that were asked for. -/
theorem get?_places {codes : List String} {c : String} (hc : c ∈ codes) {place : Option Int} :
    (Table.ofList ((g.listMembers codeList).filterMap (placed? codes))).get? c = some place ↔
      g.Stands codeList c place := by
  constructor
  · exact stands_of_get?
  · rintro ⟨e, n, he, hvalue, hplace⟩
    -- the code is a key of the table, and the list says one thing about it
    obtain ⟨m, hm, rfl⟩ := he.exists_member
    have hpair : (c, m.2) ∈ (g.listMembers codeList).filterMap (placed? codes) :=
      List.mem_filterMap.2 ⟨m, hm, placed?_eq_some.2 ⟨hvalue, hc, rfl⟩⟩
    obtain ⟨p, hp⟩ := Table.mem_keys.1 (Table.mem_keys_ofList.2 (List.mem_map_of_mem hpair))
    rw [hp, hone.place_eq (stands_of_get? hp) ⟨e, m.1, he, hvalue, hplace⟩]

end Unambiguous

/-! ## What a source comes upon -/

/-- A source comes upon a value by a link to a code and an edge from there to the code list. -/
def Meets (g : Graph) (codeList s : Id) (order : Json) : Prop :=
  ∃ e ∈ g.edgesWithLabel EdgeLabel.usedBy,
    g.label? e.target = some (NodeLabel.codeList codeList) ∧
    g.Joined EdgeLabel.hasCode s e.source ∧ e.properties.get? Property.order = some order

theorem Meets.of_orderOf? {s : Id} {order : Json} (h : g.orderOf? codeList s = some order) :
    g.Meets codeList s order := by
  unfold orderOf? at h
  obtain ⟨code, hcode, hfound⟩ := List.exists_of_findSome?_eq_some h
  obtain ⟨e, he, horder⟩ := List.exists_of_findSome?_eq_some hfound
  obtain ⟨hedge, htest⟩ := List.mem_filter.1 he
  obtain ⟨hlabel, rfl, htarget⟩ := of_decide_eq_true htest
  exact ⟨e, List.mem_filter.2 ⟨hedge, decide_eq_true hlabel⟩, isLabelled_iff.1 htarget,
    mem_targets.1 hcode, horder⟩

/-- Whoever comes upon a value has a place. -/
theorem Meets.isSome {s : Id} {order : Json} (h : g.Meets codeList s order) :
    (g.orderOf? codeList s).isSome := by
  obtain ⟨e, he, htarget, hjoined, horder⟩ := h
  obtain ⟨hedge, hlabel⟩ := List.mem_filter.1 he
  unfold orderOf?
  refine List.findSome?_isSome_iff.2 ⟨e.source, mem_targets.2 hjoined, ?_⟩
  refine List.findSome?_isSome_iff.2 ⟨e, List.mem_filter.2 ⟨hedge, ?_⟩, ?_⟩
  · exact decide_eq_true ⟨of_decide_eq_true hlabel, rfl, isLabelled_iff.2 htarget⟩
  · rw [horder]
    rfl

/-- The place of a source that comes upon one value only. -/
theorem orderOf?_eq_some {s : Id} (hone : ∀ v w, g.Meets codeList s v → g.Meets codeList s w → v = w)
    {order : Json} : g.orderOf? codeList s = some order ↔ g.Meets codeList s order := by
  constructor
  · exact Meets.of_orderOf?
  · intro h
    obtain ⟨v, hv⟩ := Option.isSome_iff_exists.1 h.isSome
    rw [hv, hone v order (.of_orderOf? hv) h]

end Graph

namespace Plan

variable {P : Plan} (hone : P.start.Unambiguous P.codeList)

/-- A source that is linked to its code, and was not linked before, leads to its code only. -/
theorem joined_withCode {n : Node} (hn : n ∈ P.sources)
    (hfree : ∀ t, ¬ P.start.Joined EdgeLabel.hasCode n.id t) {t : Id} :
    (P.withCode n.id).Joined EdgeLabel.hasCode n.id t ↔
      ∃ m, P.start.codeNode? P.codeList n.cloneCode = some m ∧ m.id = t := by
  have hstored : P.start.nodes.contains n.id = true :=
    Graph.contains_of_node? (Graph.node?_eq_some.2 ⟨rfl, (mem_sources.1 hn).2⟩)
  have hnone : P.start.targets n.id EdgeLabel.hasCode = [] :=
    List.eq_nil_iff_forall_not_mem.2 fun t ht => hfree t (Graph.mem_targets.1 ht)
  rw [← Graph.mem_targets, Graph.codeLinked_eq hn, Graph.targets_linkCode hstored, hnone]
  cases P.start.codeNode? P.codeList n.cloneCode with
  | none => simp
  | some m => simp [eq_comm]

include hone

/-- What a source that is linked to its code comes upon. -/
theorem meets_withCode {n : Node} (hn : n ∈ P.sources)
    (hfree : ∀ t, ¬ P.start.Joined EdgeLabel.hasCode n.id t) {order : Json} :
    (P.withCode n.id).Meets P.codeList n.id order ↔
      ∃ e m, P.start.Lists P.codeList e m ∧ m.text? Property.value = some n.cloneCode ∧
        e.properties.get? Property.order = some order := by
  have husedBy : (P.withCode n.id).edgesWithLabel EdgeLabel.usedBy =
      P.start.edgesWithLabel EdgeLabel.usedBy := by
    rw [Graph.codeLinked_eq hn]
    exact Graph.edgesWithLabel_linkCode n.id n.cloneCode (by decide)
  have hlabel : ∀ id, (P.withCode n.id).label? id = P.start.label? id := by
    intro id
    unfold Graph.label?
    rw [Graph.codeLinked_eq hn, Graph.nodes_linkCode]
  unfold Graph.Meets
  simp only [husedBy, hlabel, joined_withCode hn hfree, hone.codeNode?_eq_some]
  constructor
  · rintro ⟨e, he, htarget, ⟨m, ⟨hm, hvalue⟩, hid⟩, horder⟩
    obtain ⟨hedge, hused⟩ := List.mem_filter.1 he
    obtain ⟨hcode, hget⟩ := Graph.mem_nodesWithLabel.1 hm
    exact ⟨e, m, ⟨hedge, of_decide_eq_true hused, htarget,
      Graph.node?_eq_some.2 ⟨hid, hid ▸ hget⟩, hcode⟩, hvalue, horder⟩
  · rintro ⟨e, m, he, hvalue, horder⟩
    exact ⟨e, List.mem_filter.2 ⟨he.edge, decide_eq_true he.label⟩, he.target,
      ⟨m, ⟨he.mem_codes, hvalue⟩, (Graph.node?_eq_some.1 he.source).1⟩, horder⟩

/-- The place of a source is what is stored with the edge that links its code. -/
theorem place_eq_some {n : Node} (hn : n ∈ P.sources)
    (hfree : ∀ t, ¬ P.start.Joined EdgeLabel.hasCode n.id t) {order : Json} :
    P.place n.id = some order ↔
      ∃ e m, P.start.Lists P.codeList e m ∧ m.text? Property.value = some n.cloneCode ∧
        e.properties.get? Property.order = some order := by
  refine Iff.trans (Graph.orderOf?_eq_some fun v w hv hw => ?_) (meets_withCode hone hn hfree)
  obtain ⟨e, m, he, hvalue, horder⟩ := (meets_withCode hone hn hfree).1 hv
  obtain ⟨e', m', he', hvalue', horder'⟩ := (meets_withCode hone hn hfree).1 hw
  rw [hone.lists_eq he he' hvalue hvalue', horder'] at horder
  exact (Option.some.inj horder).symm

/-- As a whole number it is the place that the code list says. -/
theorem int64?_place {n : Node} (hn : n ∈ P.sources)
    (hfree : ∀ t, ¬ P.start.Joined EdgeLabel.hasCode n.id t) {place : Int} :
    (P.place n.id).bind Json.int64? = some place ↔
      P.start.Stands P.codeList n.cloneCode (some place) := by
  rw [Option.bind_eq_some_iff]
  constructor
  · rintro ⟨order, horder, hplace⟩
    obtain ⟨e, m, he, hvalue, hstored⟩ := (place_eq_some hone hn hfree).1 horder
    refine ⟨e, m, he, hvalue, ?_⟩
    unfold StoredEdge.place
    rw [hstored]
    exact hplace
  · rintro ⟨e, m, he, hvalue, hplace⟩
    obtain ⟨order, hstored, hread⟩ := Option.bind_eq_some_iff.1 hplace
    exact ⟨order, (place_eq_some hone hn hfree).2 ⟨e, m, he, hvalue, hstored⟩, hread⟩

omit hone in
/-- The clone of a source has its place. -/
theorem order_outcome {L : Set String} (hready : P.Ready L) {codes : List String} {c : String}
    {ps : Properties} (h : (P.outcome codes true).properties c = some ps) :
    ∃ n ∈ P.sources, n.cloneCode = c ∧ ps.get? Property.order = P.place n.id := by
  have hc := (isSome_outcome hready).1 (Option.isSome_iff_exists.2 ⟨ps, h⟩)
  obtain ⟨n, hn, rfl⟩ := hc.source
  have hw : P.Relevant codes n.id := (relevant_iff hready hn).2 hc
  refine ⟨n, hn, rfl, Option.ext fun order => ?_⟩
  have hiff := @order_sketch P (P.flags codes) (.final (P.Relevant codes) true) order
    hready.distinct n hn hw
  have hproperties : ((P.sketch (P.flags codes) (.final (P.Relevant codes) true)).count
      fun _ => True).properties n.cloneCode = some ps := h
  rw [hproperties] at hiff
  exact hiff.trans (and_iff_right ⟨rfl, hw⟩)

end Plan

namespace Graph

variable {L : Set String} {P : Plan} {g g' : Graph}

/-! ## The code list after the build -/

/-- A build from ids leaves the code list as it was. -/
theorem Site.lists (h : Site L P g') (hready : P.Ready L) {e : StoredEdge} {n : Node} :
    g'.Lists P.codeList e n ↔ P.start.Lists P.codeList e n := by
  have hedge : e ∈ g'.edges ∧ e.label = EdgeLabel.usedBy ↔
      e ∈ P.start.edges ∧ e.label = EdgeLabel.usedBy := by
    have hmem : e ∈ g'.edgesWithLabel EdgeLabel.usedBy ↔
        e ∈ P.start.edgesWithLabel EdgeLabel.usedBy := by rw [h.usedBy]
    simpa [edgesWithLabel] using hmem
  have htarget := h.preserves.label hready.list e.target
  have hsource : n.label = NodeLabel.code P.codeList →
      (g'.node? e.source = some n ↔ P.start.node? e.source = some n) := by
    intro hcode
    rw [node?_eq_some, node?_eq_some]
    exact and_congr_right fun _ =>
      h.preserves.nodes e.source n.vertex fun hL => hready.code (hcode ▸ hL)
  constructor
  · intro hlists
    obtain ⟨he, hl⟩ := hedge.1 ⟨hlists.edge, hlists.label⟩
    exact ⟨he, hl, htarget.1 hlists.target, (hsource hlists.code).1 hlists.source, hlists.code⟩
  · intro hlists
    obtain ⟨he, hl⟩ := hedge.2 ⟨hlists.edge, hlists.label⟩
    exact ⟨he, hl, htarget.2 hlists.target, (hsource hlists.code).2 hlists.source, hlists.code⟩

theorem Site.stands (h : Site L P g') (hready : P.Ready L) {c : String} {place : Option Int} :
    g'.Stands P.codeList c place ↔ P.start.Stands P.codeList c place := by
  unfold Stands
  simp only [h.lists hready]

theorem Site.unambiguous (h : Site L P g') (hready : P.Ready L)
    (hone : P.start.Unambiguous P.codeList) : g'.Unambiguous P.codeList := by
  constructor
  · rw [h.preserves.nodesWithLabel hready.code]
    exact hone.codes
  · intro e e' n he he'
    exact hone.edges e e' n ((h.lists hready).1 he) ((h.lists hready).1 he')

/-! ## Both readings -/

/-- What is read from a clone and what is read from its code list agree on the place of a code. -/
structure PlaceAgrees (g g' : Graph) (codeList : Id) (c : String) (n : Node) : Prop where
  /-- Asked for the places of some codes, the code among them, a reader answers with the place that
  the clone has; a code that is left out and one without a place count as the same. -/
  reads : ∀ (b : Backend) codes, c ∈ codes → ∃ table,
    Environment.graph.run (b.reader.codesOrder codeList codes).run g' = (.ok table, g') ∧
      n.int64? Property.order = (table.get? c).join
  absent : n.int64? Property.order = none ↔
    (∀ place, ¬ g.Stands codeList c place) ∨ g.Stands codeList c none

/-- A clone that has the places of its code as whole numbers agrees with the code list. -/
theorem PlaceAgrees.of_int64? {codeList : Id} {c : String} {n : Node}
    (hone : g.Unambiguous codeList) (hone' : g'.Unambiguous codeList)
    (hsame : ∀ place, g'.Stands codeList c place ↔ g.Stands codeList c place)
    (h : ∀ place, n.int64? Property.order = some place ↔ g.Stands codeList c (some place)) :
    PlaceAgrees g g' codeList c n := by
  constructor
  · intro b codes hc
    refine ⟨_, run_codesOrder_members b.reader codes, Option.ext fun place => ?_⟩
    rw [h, ← hsame, ← hone'.get?_places hc, Option.join_eq_some_iff]
  · rw [Option.eq_none_iff_forall_ne_some]
    constructor
    · intro hnone
      by_cases hlisted : g.Stands codeList c none
      · exact Or.inr hlisted
      · refine Or.inl fun place hplace => ?_
        cases place with
        | none => exact hlisted hplace
        | some place => exact hnone place ((h place).2 hplace)
    · rintro (hnot | hlisted) place hplace
      · exact hnot _ ((h place).1 hplace)
      · exact nomatch hone.place_eq hlisted ((h place).1 hplace)

/-- Every wanted code has a clone, and every clone has the place of its code in the code list. -/
structure PlacesCopied (g g' : Graph) (key : HierarchyKey) (codeList : Id) : Prop where
  clones : ∀ c, (∃ id, g'.Coded (NodeLabel.hierarchy key) c id) ↔ g.Wanted key codeList c
  places : ∀ n ∈ g'.nodesWithLabel (NodeLabel.hierarchy key), ∀ c,
    n.text? Property.code = some c → PlaceAgrees g g' codeList c n

/-- A build from ids with places gives every clone the place of its code in the code list. -/
theorem copied_places_agree (reading writing : BatchScheduler) (key : HierarchyKey) (codeList : Id)
    (g : Graph) (hfresh : g.Fresh) (hcodes : g.DistinctCodes (NodeLabel.generic codeList))
    (hinside : g.Closed (NodeLabel.generic codeList))
    (hlinks : ∀ e ∈ g.edges, e.label = EdgeLabel.hasCode →
      g.label? e.source ≠ some (NodeLabel.generic codeList))
    (hone : g.Unambiguous codeList)
    (hfree : ∀ id, g.label? id ≠ some (NodeLabel.hierarchy key))
    (hunlinked : ∀ a b, ¬ g.Joined EdgeLabel.cloneOf a b) :
    Environment.graph.Yields ((Backend.gremlin reading writing).buildFromIds true key
      codeList).run g fun r g' =>
        (∃ report, r = .ok report) ∧ PlacesCopied g g' key codeList := by
  have hready : Plan.Ready ⟨g, codeList⟩ {NodeLabel.hierarchy key} :=
    ⟨hcodes, hinside, hunlinked, fun K hK => ⟨key, hK⟩⟩
  refine (yields_buildFromIds_site reading writing true hready hfresh hfree).imp ?_
  rintro r g' ⟨⟨sources, rfl⟩, hsite, hshows⟩
  have hstage : Stage {NodeLabel.hierarchy key} (NodeLabel.hierarchy key) g _ g' :=
    ⟨hsite.sound, hsite.preserves, hshows⟩
  refine ⟨⟨_, rfl⟩, fun c => (hstage.relevant_iff hready).trans hcodes.relevant_iff,
    fun n hn c hc => ?_⟩
  obtain ⟨hlabel, hget⟩ := mem_nodesWithLabel.1 hn
  have hproperties := (hshows.properties c n.properties).2 ⟨n.id, hlabel ▸ hget, hc⟩
  obtain ⟨s, hs, rfl, horder⟩ := Plan.order_outcome hready hproperties
  have hsource : ∀ t, ¬ g.Joined EdgeLabel.hasCode s.id t := by
    intro t hjoined
    obtain ⟨e, he, hl, hid, -⟩ := joined_iff.1 hjoined
    exact hlinks e he hl (hid ▸ Plan.source_iff.1 ⟨s, hs, rfl⟩)
  refine .of_int64? hone (hsite.unambiguous hready hone) (fun place => hsite.stands hready) ?_
  intro place
  show (n.properties.get? Property.order).bind Json.int64? = some place ↔ _
  rw [horder]
  exact Plan.int64?_place hone hs hsource

/-- Four relevant codes: one with a place in the code list, one with a place that is no whole number,
one that no edge links to the list, and one that no node stands for. -/
def severalPlaces : Graph where
  nodes := Table.ofList
    [("a", ⟨NodeLabel.generic "list", Table.ofList [(Property.code, .str "all")]⟩),
      ("b", ⟨NodeLabel.generic "list", Table.ofList [(Property.code, .str "most")]⟩),
      ("c", ⟨NodeLabel.generic "list", Table.ofList [(Property.code, .str "part")]⟩),
      ("d", ⟨NodeLabel.generic "list", Table.ofList [(Property.code, .str "rest")]⟩),
      ("l", ⟨NodeLabel.codeList "list", .empty⟩),
      ("p", ⟨NodeLabel.code "list", Table.ofList [(Property.value, .str "all")]⟩),
      ("q", ⟨NodeLabel.code "list", Table.ofList [(Property.value, .str "most")]⟩),
      ("r", ⟨NodeLabel.code "list", Table.ofList [(Property.value, .str "part")]⟩),
      ("x", ⟨NodeLabel.data ⟨"i", "x"⟩, Table.ofList [(Property.value, .str "part")]⟩),
      ("y", ⟨NodeLabel.data ⟨"i", "x"⟩, Table.ofList [(Property.value, .str "rest")]⟩)]
  edges :=
    [⟨⟨"e", EdgeLabel.hasParent, "b", "a"⟩, .empty⟩, ⟨⟨"f", EdgeLabel.hasParent, "c", "b"⟩, .empty⟩,
      ⟨⟨"g", EdgeLabel.hasParent, "d", "a"⟩, .empty⟩,
      ⟨⟨"h", EdgeLabel.usedBy, "p", "l"⟩, Table.ofList [(Property.order, .int 3)]⟩,
      ⟨⟨"i", EdgeLabel.usedBy, "q", "l"⟩, Table.ofList [(Property.order, .str "first")]⟩]
  supply := ⟨longerAndLonger 2, 0⟩

theorem copied_places_agree_severalPlaces :
    Environment.graph.Yields ((Backend.gremlin (.of 1 2) (.of 1 2)).buildFromIds true ⟨"i", "x"⟩
      "list").run severalPlaces fun r g' =>
        (∃ report, r = .ok report) ∧ PlacesCopied severalPlaces g' ⟨"i", "x"⟩ "list" :=
  copied_places_agree (.of 1 2) (.of 1 2) ⟨"i", "x"⟩ "list" severalPlaces
    (fresh_of_short rfl (by decide +kernel) (by decide +kernel))
    (.of_nodup (by decide +kernel) (by decide +kernel)) (.of_edges (by decide +kernel))
    (by decide +kernel) (.of_distinct (by decide +kernel) (by decide +kernel))
    (label?_ne_of_ids (by decide +kernel)) (unlinked_of_edges (by decide +kernel))

/-- What is copied is read as a whole number or not at all. -/
example : ((Environment.graph.run ((Backend.gremlin (.of 1 2) (.of 1 2)).buildFromIds true
      ⟨"i", "x"⟩ "list").run severalPlaces).2.nodesWithLabel (NodeLabel.hierarchy ⟨"i", "x"⟩)).map
        (fun n => (n.text? Property.code, n.int64? Property.order)) =
    [(some "part", none), (some "rest", none), (some "all", some 3), (some "most", none)] := by
  decide +kernel

end Graph
end InstanceHierarchy
