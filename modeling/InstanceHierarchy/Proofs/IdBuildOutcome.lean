import InstanceHierarchy.Proofs.IdBuilds
import InstanceHierarchy.Proofs.RecordingStore

/-!
# What builds from ids leave behind

A build from ids that is alone reaches all its milestones for certain, so its hierarchy is known; and
without places it is the hierarchy that a bulk build makes.
-/

namespace InstanceHierarchy

open Relation Environment Trail

/-! ## Builds that are alone -/

/-- The progress of a build that has finished undisturbed. -/
def Progress.final (wanted : Id → Prop) (placing : Bool) : Progress where
  cloned := wanted
  linked _ := False
  placed s := placing = true ∧ wanted s
  mirrored s t := wanted s ∧ wanted t

/-- Alone, the record of a finished build shows that it is undisturbed. -/
theorem Milestones.Reached.progress {L : Set String} {P : Plan} {label : String} {g : Graph}
    {log : List Received} {wanted : Id → Prop} {placing : Bool}
    (h : (finished wanted placing).Reached L P label g log) (halone : Alone L label) :
    Progress.ofLog label log = Progress.final wanted placing := by
  have hcloned : ∀ s, Cloned label log s ↔ wanted s := by
    intro s
    cases placing <;> exact h.cloned s
  apply Progress.ext
  · funext s
    exact propext (hcloned s)
  · funext s
    refine propext ⟨fun hs => ?_, False.elim⟩
    have hw := (hcloned s).1 hs.cloned
    cases placing <;> exact h.cut s hw hs
  · funext s
    have hplaced := h.placed halone s
    cases placing with
    | false => exact propext (hplaced.trans ⟨False.elim, fun h => Bool.false_ne_true h.1⟩)
    | true => exact propext (hplaced.trans (iff_and_self.2 fun _ => rfl))
  · funext s t
    refine propext ⟨fun hm => ?_, fun ⟨hs, ht⟩ => ?_⟩
    · obtain ⟨hs, ht⟩ := hm.cloned
      exact ⟨(hcloned s).1 hs, (hcloned t).1 ht⟩
    · cases placing <;> exact h.related halone s t hs ht

namespace Plan

variable {P : Plan} {codes : List String} {L : Set String}

open Classical in
/-- The sources that carry one of the codes have data. -/
noncomputable def flags (P : Plan) (codes : List String) (s : Id) : Bool :=
  decide (P.Carries codes s)

theorem flags_iff (s : Id) : P.flags codes s = true ↔ P.Carries codes s := by
  simp [flags]

theorem carries_iff {n : Node} (hn : n ∈ P.sources) :
    P.Carries codes n.id ↔ n.cloneCode ∈ codes := by
  constructor
  · rintro ⟨m, hm, hid, hcode⟩
    exact sources_inj hm hn hid ▸ hcode
  · exact fun hcode => ⟨n, hn, rfl, hcode⟩

theorem flags_source {n : Node} (hn : n ∈ P.sources) :
    P.flags codes n.id = decide (n.cloneCode ∈ codes) := by
  rw [Bool.eq_iff_iff, flags_iff, carries_iff hn, decide_eq_true_eq]

/-- The hierarchy that a build leaves when it is alone. -/
noncomputable def outcome (P : Plan) (codes : List String) (placing : Bool) : Picture :=
  (P.sketch (P.flags codes) (.final (P.Relevant codes) placing)).count fun _ => True

variable (hready : P.Ready L)

include hready

theorem chain_within {d s : Id} (hd : ∃ n ∈ P.sources, n.id = d) :
    ReflTransGen (P.start.UpWithin (NodeLabel.generic P.codeList)) d s ↔
      ReflTransGen P.start.Up d s := by
  constructor
  · exact fun hchain => hchain.lift id fun _ _ h => h.1
  · intro hchain
    induction hchain with
    | refl => exact .refl
    | tail hchain hup ih =>
        have hlabel := source_iff.1 (hready.source_of_chain hd hchain)
        exact ih.tail ⟨hup, hlabel, hready.inside _ _ hup hlabel⟩

/-- What is relevant among the sources is what is relevant among the codes. -/
theorem relevant_iff {n : Node} (hn : n ∈ P.sources) :
    P.Relevant codes n.id ↔
      P.start.Relevant (NodeLabel.generic P.codeList) codes n.cloneCode := by
  have hnode := (hready.distinct.cloneCode_iff hn).1 rfl
  -- a source is at the end of an empty chain or of a longer one
  have hboth : P.Relevant codes n.id ↔
      ∃ d, P.Carries codes d ∧ ReflTransGen P.start.Up d n.id := by
    unfold Relevant Above
    constructor
    · rintro (hs | ⟨d, hd, hchain⟩)
      · exact ⟨n.id, hs, .refl⟩
      · exact ⟨d, hd, hchain.to_reflTransGen⟩
    · rintro ⟨d, hd, hchain⟩
      rcases reflTransGen_iff_eq_or_transGen.1 hchain with heq | hchain
      · exact Or.inl (heq ▸ hd)
      · exact Or.inr ⟨d, hd, hchain⟩
  rw [hboth]
  unfold Graph.Relevant Graph.CodeHasData
  constructor
  · rintro ⟨d, ⟨m, hm, rfl, hcode⟩, hchain⟩
    have hm' := (hready.distinct.cloneCode_iff hm).1 rfl
    have hcodes := hready.distinct.chain_iff.1
      ⟨m.id, n.id, hm', hnode, (chain_within hready ⟨m, hm, rfl⟩).2 hchain⟩
    exact ⟨m.cloneCode, ⟨hcode, m, hm, rfl⟩, hcodes.2⟩
  · rintro ⟨c, ⟨hcode, m, hm, rfl⟩, hchain⟩
    have hm' := (hready.distinct.cloneCode_iff hm).1 rfl
    obtain ⟨s, t, hs, ht, hids⟩ := hready.distinct.chain_iff.2 ⟨⟨m.id, hm'⟩, hchain⟩
    obtain rfl := hready.distinct.unique _ s m.id hs hm'
    obtain rfl := hready.distinct.unique _ t n.id ht hnode
    exact ⟨m.id, ⟨m, hm, rfl, hcode⟩, (chain_within hready ⟨m, hm, rfl⟩).1 hids⟩

/-- The relevant codes are those of the relevant sources. -/
theorem exists_relevant_iff {c : String} :
    (∃ n ∈ P.sources, P.Relevant codes n.id ∧ n.cloneCode = c) ↔
      P.start.Relevant (NodeLabel.generic P.codeList) codes c := by
  constructor
  · rintro ⟨n, hn, hw, rfl⟩
    exact (relevant_iff hready hn).1 hw
  · intro hc
    obtain ⟨n, hn, rfl⟩ := hc.source
    exact ⟨n, hn, (relevant_iff hready hn).2 hc, rfl⟩

theorem parent_final {placing : Bool} {c d : String} :
    (P.sketch (P.flags codes) (.final (P.Relevant codes) placing)).parent c d ↔
      P.start.CodeParent (NodeLabel.generic P.codeList) c d ∧
        P.start.Relevant (NodeLabel.generic P.codeList) codes c ∧
        P.start.Relevant (NodeLabel.generic P.codeList) codes d := by
  constructor
  · rintro ⟨n, hn, m, hm, ⟨hwn, hwm⟩, hup, rfl, rfl⟩
    exact ⟨⟨n, hn, m, hm, hup, rfl, rfl⟩, (relevant_iff hready hn).1 hwn,
      (relevant_iff hready hm).1 hwm⟩
  · rintro ⟨⟨n, hn, m, hm, hup, rfl, rfl⟩, hwn, hwm⟩
    exact ⟨n, hn, m, hm, ⟨(relevant_iff hready hn).2 hwn, (relevant_iff hready hm).2 hwm⟩, hup,
      rfl, rfl⟩

/-- The number of the children of a relevant code is that of its relevant children. -/
theorem childCount_final {placing : Bool} {c : String}
    (hc : P.start.Relevant (NodeLabel.generic P.codeList) codes c) :
    (P.sketch (P.flags codes) (.final (P.Relevant codes) placing)).childCount c =
      .int (Set.ncard (P.start.childCodes (NodeLabel.generic P.codeList) codes c)) := by
  have hchildren : { k | (P.sketch (P.flags codes) (.final (P.Relevant codes) placing)).parent k c } =
      P.start.childCodes (NodeLabel.generic P.codeList) codes c := by
    ext k
    refine (parent_final hready).trans ?_
    exact ⟨fun h => ⟨h.1, h.2.1⟩, fun h => ⟨h.1, h.2, hc⟩⟩
  unfold Picture.childCount
  rw [hchildren]

/-- Without places it is the hierarchy that a bulk build makes. -/
theorem outcome_eq_instanceOf : P.outcome codes false = P.start.instanceOf codes P.codeList := by
  apply Picture.ext
  · funext c
    unfold outcome
    rw [Picture.properties_count_all]
    by_cases hsource : ∃ n ∈ P.sources, n.cloneCode = c
    · obtain ⟨n, hn, rfl⟩ := hsource
      by_cases hw : P.Relevant codes n.id
      · have hc := (relevant_iff hready hn).1 hw
        have hplaced : ¬ (Progress.final (P.Relevant codes) false).placed n.id :=
          fun h => Bool.false_ne_true h.1
        rw [properties_sketch hready.distinct hn hw, cloneProperties_of_not hplaced,
          flags_source hn, childCount_final hready hc, Graph.properties_instanceOf hc,
          source?_of_mem hready.distinct hn]
        rfl
      · rw [properties_sketch_of_not hready.distinct hn hw,
          Graph.properties_instanceOf_of_not fun h => hw ((relevant_iff hready hn).2 h)]
        rfl
    · rw [properties_sketch_of_none fun n hn hc => hsource ⟨n, hn, hc⟩,
        Graph.properties_instanceOf_of_not fun h => hsource h.source]
      rfl
  · funext c d
    exact propext (parent_final hready)
  · funext c s
    refine propext ⟨?_, False.elim⟩
    rintro ⟨n, -, -, -, h⟩
    exact h

/-- The number of nodes is that of the relevant codes. -/
theorem nodeCount_report (key : HierarchyKey) (sources : Nat) :
    (P.report key sources).nodeCount =
      (P.start.bulkReport key P.codeList).nodeCount := by
  have hcodes : { c | ∃ n ∈ P.sources,
      P.Relevant (P.start.dataCodes (NodeLabel.data key)) n.id ∧ n.cloneCode = c } =
        { c | ((P.start.instanceOf (P.start.dataCodes (NodeLabel.data key))
          P.codeList).properties c).isSome } := by
    ext c
    exact (exists_relevant_iff hready).trans Graph.isSome_instanceOf.symm
  unfold Plan.report Graph.bulkReport
  rw [hcodes]

end Plan

namespace Graph

variable {g g' : Graph}

/-- A build that has not begun stands at the start. -/
theorem at_start {L : Set String} {P : Plan} {label : String} (data : Id → Bool)
    (hready : P.Ready L) (hfresh : P.start.Fresh)
    (hfree : ∀ K ∈ L, ∀ id, P.start.label? id ≠ some K) (hL : label ∈ L) :
    Milestones.start.At L P data label (fun _ => False) (.ofGraph P.start) := by
  -- nothing has been received, so the sketch has no nodes, no parent edges and no links
  have hempty : P.sketch data (.ofLog label []) = Picture.empty := by
    refine Plan.sketch_eq_empty hready.distinct ?_ (fun s => not_linked_nil)
      fun s t => not_once_nil
    rintro s ⟨e, he, -⟩
    exact List.not_mem_nil he
  refine ⟨ScriptedStore.plain_ofGraph P.start, Plan.Ready.site hfresh hfree, ?_,
    fun ⟨_, hc⟩ => hc.elim, Milestones.reached_start L P label P.start⟩
  show P.start.Shows label ((P.sketch data (.ofLog label [])).count fun _ => False)
  rw [Picture.count_none _ fun _ => id, hempty]
  exact shows_empty (hfree label hL)

/-- A build from ids that is alone leaves its hierarchy at the site that it worked at. -/
theorem yields_buildFromIds_site {P : Plan} {key : HierarchyKey} (reading writing : BatchScheduler)
    (placing : Bool) (hready : P.Ready {NodeLabel.hierarchy key}) (hfresh : P.start.Fresh)
    (hfree : ∀ id, P.start.label? id ≠ some (NodeLabel.hierarchy key)) :
    Environment.graph.Yields ((Backend.gremlin reading writing).buildFromIds placing key
      P.codeList).run P.start fun r g' => (∃ sources, r = .ok (P.report key sources)) ∧
        Site {NodeLabel.hierarchy key} P g' ∧ g'.Shows (NodeLabel.hierarchy key)
          (P.outcome (P.start.dataCodes (NodeLabel.data key)) placing) := by
  have hfrees : ∀ K ∈ ({NodeLabel.hierarchy key} : Set String), ∀ id,
      P.start.label? id ≠ some K := fun K hK => hK ▸ hfree
  have halone : Alone {NodeLabel.hierarchy key} (NodeLabel.hierarchy key) := fun K hK => hK
  have hstart := at_start (P.flags (P.start.dataCodes (NodeLabel.data key))) hready hfresh hfrees
    (rfl : NodeLabel.hierarchy key ∈ ({NodeLabel.hierarchy key} : Set String))
  have hachieves := achieves_buildFromIds hready rfl reading writing placing
    (fun h => hierarchy_ne_data key h.symm) Plan.flags_iff _ hstart
  refine Environment.Yields.of_recorded (ScriptedStore.plain_ofGraph P.start)
    (hachieves.yields.imp ?_)
  rintro r st ⟨report, rfl, ⟨sources, rfl⟩, hst⟩
  refine ⟨⟨sources, rfl⟩, hst.site, ?_⟩
  have hshows := hst.shows
  rw [hst.holds.progress halone] at hshows
  exact hshows

/-- What a build from ids leaves when it is alone. -/
theorem yields_buildFromIds {P : Plan} {key : HierarchyKey} (reading writing : BatchScheduler)
    (placing : Bool) (hready : P.Ready {NodeLabel.hierarchy key}) (hfresh : P.start.Fresh)
    (hfree : ∀ id, P.start.label? id ≠ some (NodeLabel.hierarchy key)) :
    Environment.graph.Yields ((Backend.gremlin reading writing).buildFromIds placing key
      P.codeList).run P.start fun r g' => (∃ sources, r = .ok (P.report key sources)) ∧
        Stage {NodeLabel.hierarchy key} (NodeLabel.hierarchy key) P.start
          (P.outcome (P.start.dataCodes (NodeLabel.data key)) placing) g' := by
  refine (yields_buildFromIds_site reading writing placing hready hfresh hfree).imp ?_
  rintro r g' ⟨hreport, hsite, hshows⟩
  exact ⟨hreport, hsite.sound, hsite.preserves, hshows⟩

/-! ## Both kinds of builds -/

/-- A build that leaves a hierarchy without links leaves no clone edge where there was none. -/
theorem Stage.unlinked {label : String} {pic : Picture} (h : Stage {label} label g pic g')
    (hpic : ∀ c s, ¬ pic.link c s) (hg : ∀ a b, ¬ g.Joined EdgeLabel.cloneOf a b) (a b : Id) :
    ¬ g'.Joined EdgeLabel.cloneOf a b := by
  intro hj
  -- a clone edge leaves the new hierarchy, which shows none, or it was there before
  by_cases ha : g'.label? a = some label
  · obtain ⟨c, hc⟩ := (h.sound.tidy label rfl).exists_code ha
    exact hpic c b ((h.shows.link c b).2 ⟨a, hc, hj⟩)
  · exact hg a b (h.preserves.stray a b ⟨hj, fun K hK hlabel => ha (hK ▸ hlabel)⟩).1

theorem inside_of_edges {label : String}
    (h : ∀ e ∈ g.edges, e.label = EdgeLabel.hasParent → g.label? e.target = some label) (s t : Id)
    (hup : g.Up s t) (hs : g.label? s = some label) : g.label? t = some label :=
  Closed.of_edges (fun e he hl _ => h e he hl) s t hup hs

theorem unlinked_of_edges (h : ∀ e ∈ g.edges, e.label ≠ EdgeLabel.cloneOf) (s t : Id) :
    ¬ g.Joined EdgeLabel.cloneOf s t := by
  intro hj
  obtain ⟨e, he, hl, -, -⟩ := joined_iff.1 hj
  exact h e he hl

theorem twoCodes_inside (s t : Id) : twoCodes.Up s t →
    twoCodes.label? s = some (NodeLabel.generic "list") →
    twoCodes.label? t = some (NodeLabel.generic "list") :=
  inside_of_edges (by decide +kernel) s t

theorem twoCodes_unlinked (s t : Id) : ¬ twoCodes.Joined EdgeLabel.cloneOf s t :=
  unlinked_of_edges (by decide +kernel) s t

/-- What a finished build has to show: the same hierarchy and the same numbers as another one, clones
as they should be, and no clone edges. -/
structure Agrees (g : Graph) (key : HierarchyKey) (codeList : Id) (report report' : BuildReport)
    (g' g'' : Graph) : Prop where
  outline : g'.outline (NodeLabel.hierarchy key) = g''.outline (NodeLabel.hierarchy key)
  clone : ∀ c id ps, g'.nodes.get? id = some ⟨NodeLabel.hierarchy key, ps⟩ → codeIn ps = some c →
    CloneOutcome g g' key codeList c id ps
  unlinked : ∀ a b, ¬ g'.Joined EdgeLabel.cloneOf a b
  nodeCount : report.nodeCount = report'.nodeCount
  codesWithData : report.codesWithData = report'.codesWithData

/-- Builds that leave the wanted hierarchy agree with each other. -/
theorem Agrees.of_stages {key : HierarchyKey} {codeList : Id} {report report' : BuildReport}
    {g'' : Graph} (hcodes : g.DistinctCodes (NodeLabel.generic codeList))
    (hunlinked : ∀ s t, ¬ g.Joined EdgeLabel.cloneOf s t)
    (h : Stage {NodeLabel.hierarchy key} (NodeLabel.hierarchy key) g
      (g.instanceOf (g.dataCodes (NodeLabel.data key)) codeList) g')
    (h' : Stage {NodeLabel.hierarchy key} (NodeLabel.hierarchy key) g
      (g.instanceOf (g.dataCodes (NodeLabel.data key)) codeList) g'')
    (hnodes : report.nodeCount = report'.nodeCount)
    (hdata : report.codesWithData = report'.codesWithData) :
    Agrees g key codeList report report' g' g'' := by
  refine ⟨?_, fun c id ps hid hc => ?_, h.unlinked (fun c s => id) hunlinked, hnodes, hdata⟩
  · rw [outline_eq h.shows (h.sound.tidy _ rfl), outline_eq h'.shows (h'.sound.tidy _ rfl)]
  · exact cloneOutcome_of_shows hcodes (h.sound.tidy _ rfl) h.shows hid hc

/-- A build from ids and a bulk build of the same hierarchy both succeed, and they leave the same. -/
theorem buildFromIds_agrees_buildBulk (reading writing : BatchScheduler) (b : Backend)
    (key : HierarchyKey) (codeList : Id) (g : Graph) (hfresh : g.Fresh)
    (hcodes : g.DistinctCodes (NodeLabel.generic codeList))
    (hinside : ∀ s t, g.Up s t → g.label? s = some (NodeLabel.generic codeList) →
      g.label? t = some (NodeLabel.generic codeList))
    (hfree : ∀ id, g.label? id ≠ some (NodeLabel.hierarchy key))
    (hunlinked : ∀ s t, ¬ g.Joined EdgeLabel.cloneOf s t) :
    ∃ report' g'', Environment.graph.run (b.buildBulk key codeList).run g = (.ok report', g'') ∧
      Agrees g key codeList report' report' g'' g'' ∧
      Environment.graph.Yields ((Backend.gremlin reading writing).buildFromIds false key
        codeList).run g fun r g' => ∃ report, r = .ok report ∧
          Agrees g key codeList report report' g' g'' := by
  obtain ⟨hreport, hbulk⟩ := run_buildBulk b key codeList hfresh hfree
  have hready : Plan.Ready ⟨g, codeList⟩ {NodeLabel.hierarchy key} :=
    ⟨hcodes, hinside, hunlinked, fun K hK => ⟨key, hK⟩⟩
  refine ⟨g.bulkReport key codeList, _, Prod.ext hreport rfl,
    .of_stages hcodes hunlinked hbulk hbulk rfl rfl, ?_⟩
  refine (yields_buildFromIds reading writing false hready hfresh hfree).imp ?_
  rintro r g' ⟨⟨sources, rfl⟩, hstage⟩
  rw [Plan.outcome_eq_instanceOf hready] at hstage
  exact ⟨_, rfl, .of_stages hcodes hunlinked hstage hbulk
    (Plan.nodeCount_report hready key sources) rfl⟩

theorem buildFromIds_agrees_buildBulk_twoCodes :
    ∃ report' g'', Environment.graph.run
        ((Backend.cypher .standard).buildBulk ⟨"i", "x"⟩ "list").run twoCodes = (.ok report', g'') ∧
      Agrees twoCodes ⟨"i", "x"⟩ "list" report' report' g'' g'' ∧
      Environment.graph.Yields ((Backend.gremlin (.of 1 2) (.of 1 2)).buildFromIds false ⟨"i", "x"⟩
        "list").run twoCodes fun r g' => ∃ report, r = .ok report ∧
          Agrees twoCodes ⟨"i", "x"⟩ "list" report report' g' g'' :=
  buildFromIds_agrees_buildBulk (.of 1 2) (.of 1 2) (.cypher .standard) ⟨"i", "x"⟩ "list" twoCodes
    twoCodes_fresh twoCodes_distinct twoCodes_inside (label?_ne_of_ids (by decide +kernel))
    twoCodes_unlinked

end Graph
end InstanceHierarchy
