import InstanceHierarchy.Proofs.IdBuildOutcome

/-!
# Builds from ids that disturb each other

A build from ids cuts the links to its sources without saying for which hierarchy, and it gives
places to whatever is linked to them.  A build of another hierarchy that still needs these links
misses its parent edges or places, or gets places that it did not ask for.  Which builds are disturbed
can be read off the calls that the store has received.
-/

namespace InstanceHierarchy

open Relation Environment Trail

namespace Plan

variable {P : Plan} {data : Id → Bool} {p : Progress} {order : Json}

/-- The parent edges of clones are those that were repeated. -/
theorem parent_sketch (hP : P.start.DistinctCodes (NodeLabel.generic P.codeList)) {n m : Node}
    (hn : n ∈ P.sources) (hm : m ∈ P.sources) :
    (P.sketch data p).parent n.cloneCode m.cloneCode ↔
      p.mirrored n.id m.id ∧ P.start.Up n.id m.id := by
  constructor
  · rintro ⟨n', hn', m', hm', hmirrored, hup, hc, hd⟩
    obtain rfl := code_inj hP hn' hn hc
    obtain rfl := code_inj hP hm' hm hd
    exact ⟨hmirrored, hup⟩
  · rintro ⟨hmirrored, hup⟩
    exact ⟨n, hn, m, hm, hmirrored, hup, rfl, rfl⟩

open Classical in
/-- Only places that were given are there. -/
theorem order_cloneProperties (n : Node) :
    (P.cloneProperties data p n).get? Property.order =
      if p.placed n.id then P.place n.id else none := by
  have hbare : (Graph.cloneProperties n n.cloneCode P.codeList (data n.id)).get? Property.order =
      none := by
    rw [Graph.get?_cloneProperties, if_neg (by decide), if_neg (by decide), if_neg (by decide),
      if_neg (by decide)]
  unfold cloneProperties
  by_cases hplaced : p.placed n.id
  · simp only [if_pos hplaced, withPlace]
    cases P.place n.id with
    | none => exact hbare
    | some order =>
        show (Table.insert _ _ _).get? _ = _
        rw [Table.get?_insert, if_pos rfl]
  · simp only [if_neg hplaced]
    exact hbare

/-- The place that the clone of a source has, also when the children are counted. -/
theorem order_sketch (hP : P.start.DistinctCodes (NodeLabel.generic P.codeList)) {n : Node}
    (hn : n ∈ P.sources) (hcloned : p.cloned n.id) :
    (((P.sketch data p).count fun _ => True).properties n.cloneCode).bind
        (fun ps => ps.get? Property.order) = some order ↔
      p.placed n.id ∧ P.place n.id = some order := by
  have hne : ¬ Property.numberOfChildren = Property.order := by decide
  rw [Picture.properties_count_all, properties_sketch hP hn hcloned]
  show (Table.insert _ _ _).get? _ = _ ↔ _
  rw [Table.get?_insert, if_neg hne, order_cloneProperties]
  by_cases hplaced : p.placed n.id
  · simp [hplaced]
  · simp [hplaced]

/-- Sources without a place look the same with and without one given. -/
theorem cloneProperties_congr {p' : Progress} {n : Node}
    (h : (P.place n.id).isSome → (p.placed n.id ↔ p'.placed n.id)) :
    P.cloneProperties data p n = P.cloneProperties data p' n := by
  unfold cloneProperties
  cases hplace : P.place n.id with
  | none =>
      have hkeep : ∀ ps, P.withPlace n.id ps = ps := by
        intro ps
        unfold withPlace
        rw [hplace]
      simp only [hkeep, ite_self]
  | some order =>
      have hsame : p.placed n.id = p'.placed n.id := propext (h (by rw [hplace]; rfl))
      rw [hsame]

/-- No call of another build has got in the way of the build of a hierarchy. -/
structure Undisturbed (P : Plan) (key : HierarchyKey) (placing : Bool) (log : List Received) :
    Prop where
  /-- When the parent edge between two relevant sources was repeated, both were linked. -/
  mirrored : ∀ s t, P.Relevant (P.start.dataCodes (NodeLabel.data key)) s → P.start.Up s t →
    Mirrored (NodeLabel.hierarchy key) log s t
  /-- The clones of relevant sources with a place were given it when, and only when, the build was
  to give places. -/
  placed : ∀ s, P.Relevant (P.start.dataCodes (NodeLabel.data key)) s → (P.place s).isSome →
    (Placed (NodeLabel.hierarchy key) log s ↔ placing = true)

variable {L : Set String} {codes : List String} {placing : Bool}

/-- Parents of relevant sources are relevant. -/
theorem Relevant.up {s t : Id} (h : P.Relevant codes s) (hup : P.start.Up s t) :
    P.Relevant codes t := by
  rcases h with hs | ⟨d, hd, hchain⟩
  · exact Or.inr ⟨s, hs, .single hup⟩
  · exact Or.inr ⟨d, hd, hchain.tail hup⟩

variable (hready : P.Ready L)

include hready

variable (data) in
/-- All parent edges are there if they were repeated between all relevant sources. -/
theorem parent_eq_iff (hmirrored : ∀ s t, p.mirrored s t → P.Relevant codes s ∧ P.Relevant codes t) :
    (P.sketch data p).parent = (P.sketch data (.final (P.Relevant codes) placing)).parent ↔
      ∀ s t, P.Relevant codes s → P.start.Up s t → p.mirrored s t := by
  constructor
  · intro h s t hs hup
    obtain ⟨n, hn, rfl⟩ := Relevant.source hready hs
    obtain ⟨m, hm, rfl⟩ := Relevant.source hready (hs.up hup)
    -- parents of relevant sources are relevant, so the finished hierarchy has the edge
    have hfinal : (P.sketch data (.final (P.Relevant codes) placing)).parent n.cloneCode
        m.cloneCode := (parent_sketch hready.distinct hn hm).2 ⟨⟨hs, hs.up hup⟩, hup⟩
    rw [← h] at hfinal
    exact ((parent_sketch hready.distinct hn hm).1 hfinal).1
  · intro h
    funext c d
    refine propext ⟨?_, ?_⟩
    · rintro ⟨n, hn, m, hm, hnm, hup, hc, hd⟩
      exact ⟨n, hn, m, hm, hmirrored n.id m.id hnm, hup, hc, hd⟩
    · rintro ⟨n, hn, m, hm, ⟨hw, -⟩, hup, hc, hd⟩
      exact ⟨n, hn, m, hm, h n.id m.id hw hup, hup, hc, hd⟩

/-- Places are as they should be if the properties are, -/
theorem placed_of_properties_eq {s : Id} (hcloned : p.cloned s) (hs : P.Relevant codes s)
    (hplace : (P.place s).isSome)
    (h : ((P.sketch data p).count fun _ => True).properties =
      ((P.sketch data (.final (P.Relevant codes) placing)).count fun _ => True).properties) :
    p.placed s ↔ placing = true := by
  obtain ⟨n, hn, rfl⟩ := Relevant.source hready hs
  obtain ⟨order, horder⟩ := Option.isSome_iff_exists.1 hplace
  have hp := @order_sketch P data p order hready.distinct n hn hcloned
  have hfinal := @order_sketch P data (.final (P.Relevant codes) placing) order hready.distinct n hn hs
  rw [h, hfinal] at hp
  constructor
  · intro hplaced
    exact (hp.2 ⟨hplaced, horder⟩).1.1
  · intro hplacing
    exact (hp.1 ⟨⟨hplacing, hs⟩, horder⟩).1

/-- and the properties are if the places and the numbers of children are. -/
theorem properties_eq_of_placed (hcloned : ∀ s, p.cloned s ↔ P.Relevant codes s)
    (hcount : (P.sketch data p).childCount =
      (P.sketch data (.final (P.Relevant codes) placing)).childCount)
    (h : ∀ s, P.Relevant codes s → (P.place s).isSome → (p.placed s ↔ placing = true)) :
    ((P.sketch data p).count fun _ => True).properties =
      ((P.sketch data (.final (P.Relevant codes) placing)).count fun _ => True).properties := by
  funext c
  rw [Picture.properties_count_all, Picture.properties_count_all, hcount]
  congr 1
  by_cases hsource : ∃ n ∈ P.sources, n.cloneCode = c
  · obtain ⟨n, hn, rfl⟩ := hsource
    by_cases hw : P.Relevant codes n.id
    · have hfinal : (Progress.final (P.Relevant codes) placing).placed n.id ↔ placing = true :=
        and_iff_left hw
      rw [properties_sketch hready.distinct hn ((hcloned n.id).2 hw),
        properties_sketch hready.distinct hn hw]
      exact congrArg some (cloneProperties_congr fun hplace => (h n.id hw hplace).trans hfinal.symm)
    · have hnot : ¬ p.cloned n.id := fun hc => hw ((hcloned n.id).1 hc)
      rw [properties_sketch_of_not hready.distinct hn hnot,
        properties_sketch_of_not hready.distinct hn hw]
  · have hnone : ∀ n ∈ P.sources, n.cloneCode ≠ c := fun n hn hc => hsource ⟨n, hn, hc⟩
    rw [properties_sketch_of_none hnone, properties_sketch_of_none hnone]

/-- A finished hierarchy has the outline that it should have if the parent edges and places are as
they should be, and only then. -/
theorem outline_sketch_iff (hcloned : ∀ s, p.cloned s ↔ P.Relevant codes s)
    (hmirrored : ∀ s t, p.mirrored s t → p.cloned s ∧ p.cloned t) :
    ((P.sketch data p).count fun _ => True).outline =
        ((P.sketch data (.final (P.Relevant codes) placing)).count fun _ => True).outline ↔
      (∀ s t, P.Relevant codes s → P.start.Up s t → p.mirrored s t) ∧
        ∀ s, P.Relevant codes s → (P.place s).isSome → (p.placed s ↔ placing = true) := by
  have hwanted : ∀ s t, p.mirrored s t → P.Relevant codes s ∧ P.Relevant codes t := fun s t hst =>
    ⟨(hcloned s).1 (hmirrored s t hst).1, (hcloned t).1 (hmirrored s t hst).2⟩
  have hparent := @parent_eq_iff P data p L codes placing hready hwanted
  rw [Picture.outline_eq_iff]
  constructor
  · rintro ⟨hproperties, hparents⟩
    exact ⟨hparent.1 hparents, fun s hs hplace =>
      placed_of_properties_eq hready ((hcloned s).2 hs) hs hplace hproperties⟩
  · rintro ⟨hall, hplaced⟩
    have hparents := hparent.2 hall
    refine ⟨properties_eq_of_placed hready hcloned ?_ hplaced, hparents⟩
    unfold Picture.childCount
    rw [hparents]

end Plan

/-- A finished build has left the hierarchy that it leaves alone if it was not disturbed, and only
then. -/
theorem Milestones.outline_iff_undisturbed {L : Set String} {P : Plan} {key : HierarchyKey}
    {placing : Bool} {st : ScriptedStore} (hready : P.Ready L) (hL : NodeLabel.hierarchy key ∈ L)
    (h : (finished (P.Relevant (P.start.dataCodes (NodeLabel.data key))) placing).At L P
      (P.flags (P.start.dataCodes (NodeLabel.data key))) (NodeLabel.hierarchy key)
      (fun _ => True) st) :
    st.graph.outline (NodeLabel.hierarchy key) =
        (P.outcome (P.start.dataCodes (NodeLabel.data key)) placing).outline ↔
      P.Undisturbed key placing st.log := by
  have hcloned : ∀ s, Cloned (NodeLabel.hierarchy key) st.log s ↔
      P.Relevant (P.start.dataCodes (NodeLabel.data key)) s := by
    intro s
    cases placing <;> exact h.holds.cloned s
  rw [Graph.outline_eq h.shows (h.site.sound.tidy _ hL)]
  refine (Plan.outline_sketch_iff (p := .ofLog (NodeLabel.hierarchy key) st.log) hready hcloned
    fun s t => Mirrored.cloned).trans ?_
  constructor
  · rintro ⟨hmirrored, hplaced⟩
    exact ⟨hmirrored, hplaced⟩
  · intro hundisturbed
    exact ⟨hundisturbed.mirrored, hundisturbed.placed⟩

/-- A finished build that was alone was not disturbed. -/
theorem Milestones.Reached.undisturbed {L : Set String} {P : Plan} {key : HierarchyKey} {g : Graph}
    {placing : Bool} {log : List Received}
    (h : (finished (P.Relevant (P.start.dataCodes (NodeLabel.data key))) placing).Reached L P
      (NodeLabel.hierarchy key) g log) (halone : Alone L (NodeLabel.hierarchy key)) :
    P.Undisturbed key placing log := by
  have hprogress := h.progress halone
  constructor
  · intro s t hs hup
    show (Progress.ofLog (NodeLabel.hierarchy key) log).mirrored s t
    rw [hprogress]
    exact ⟨hs, hs.up hup⟩
  · intro s hs _
    show (Progress.ofLog (NodeLabel.hierarchy key) log).placed s ↔ _
    rw [hprogress]
    exact and_iff_left hs

/-- What is known by codes of the hierarchy that a build leaves when it is alone. -/
theorem Graph.outline_run_buildFromIds {P : Plan} {key : HierarchyKey}
    (reading writing : BatchScheduler) (placing : Bool) (hready : P.Ready {NodeLabel.hierarchy key})
    (hfresh : P.start.Fresh) (hfree : ∀ id, P.start.label? id ≠ some (NodeLabel.hierarchy key)) :
    (Environment.graph.run ((Backend.gremlin reading writing).buildFromIds placing key
        P.codeList).run P.start).2.outline (NodeLabel.hierarchy key) =
      (P.outcome (P.start.dataCodes (NodeLabel.data key)) placing).outline := by
  obtain ⟨-, hstage⟩ := (yields_buildFromIds reading writing placing hready hfresh hfree).run
  exact outline_eq hstage.shows (hstage.sound.tidy _ rfl)

namespace Graph

/-- A build from ids that is alone is not disturbed, whatever the order of its calls. -/
theorem yields_undisturbed {P : Plan} {key : HierarchyKey} (reading writing : BatchScheduler)
    (placing : Bool) (hready : P.Ready {NodeLabel.hierarchy key}) (hfresh : P.start.Fresh)
    (hfree : ∀ id, P.start.label? id ≠ some (NodeLabel.hierarchy key)) :
    ScriptedStore.environment.Yields
      ((Backend.gremlin reading writing).buildFromIds placing key P.codeList).run (.ofGraph P.start)
      fun r st => (∃ report, r = .ok report) ∧ P.Undisturbed key placing st.log := by
  have hapart := apart_alone key P.codeList
  have halone : Alone {NodeLabel.hierarchy key} (NodeLabel.hierarchy key) := fun K hK => hK
  have hachieves := achieves_buildFromIds hready hapart.own reading writing placing hapart.data
    Plan.flags_iff _ (at_start _ hready hfresh (fun K hK => hK ▸ hfree) hapart.own)
  refine hachieves.yields.imp ?_
  rintro r st ⟨report, rfl, -, hst⟩
  exact ⟨⟨report, rfl⟩, hst.holds.undisturbed halone⟩

/-- However the store calls of two builds from ids of different hierarchies alternate, both builds
succeed, and each leaves the hierarchy that it leaves alone exactly when it was not disturbed. -/
theorem buildFromIds_beside_buildFromIds (reading writing reading' writing' : BatchScheduler)
    (placing placing' : Bool) (key key' : HierarchyKey) (codeList : Id) (g : Graph)
    (hfresh : g.Fresh) (hcodes : g.DistinctCodes (NodeLabel.generic codeList))
    (hinside : ∀ s t, g.Up s t → g.label? s = some (NodeLabel.generic codeList) →
      g.label? t = some (NodeLabel.generic codeList))
    (hunlinked : ∀ s t, ¬ g.Joined EdgeLabel.cloneOf s t)
    (hne : NodeLabel.hierarchy key ≠ NodeLabel.hierarchy key')
    (hdata : NodeLabel.data key ≠ NodeLabel.hierarchy key')
    (hdata' : NodeLabel.data key' ≠ NodeLabel.hierarchy key)
    (hfree : ∀ id, g.label? id ≠ some (NodeLabel.hierarchy key))
    (hfree' : ∀ id, g.label? id ≠ some (NodeLabel.hierarchy key')) :
    ScriptedStore.environment.YieldBoth
      ((Backend.gremlin reading writing).buildFromIds placing key codeList).run
      ((Backend.gremlin reading' writing').buildFromIds placing' key' codeList).run (.ofGraph g)
      fun r r' st =>
        (∃ report report', r = .ok report ∧ r' = .ok report') ∧
        (st.graph.outline (NodeLabel.hierarchy key) = (Environment.graph.run
            ((Backend.gremlin reading writing).buildFromIds placing key codeList).run
              g).2.outline (NodeLabel.hierarchy key) ↔
          Plan.Undisturbed ⟨g, codeList⟩ key placing st.log) ∧
        (st.graph.outline (NodeLabel.hierarchy key') = (Environment.graph.run
            ((Backend.gremlin reading' writing').buildFromIds placing' key' codeList).run
              g).2.outline (NodeLabel.hierarchy key') ↔
          Plan.Undisturbed ⟨g, codeList⟩ key' placing' st.log) := by
  -- both builds are under way, or only one of them
  have hready : Plan.Ready ⟨g, codeList⟩ {NodeLabel.hierarchy key, NodeLabel.hierarchy key'} :=
    ⟨hcodes, hinside, hunlinked, Set.forall_mem_insert.2 ⟨⟨key, rfl⟩, fun K hK => ⟨key', hK⟩⟩⟩
  have hfrees : ∀ K ∈ ({NodeLabel.hierarchy key, NodeLabel.hierarchy key'} : Set String),
      ∀ id, g.label? id ≠ some K := Set.forall_mem_insert.2 ⟨hfree, fun K hK => hK ▸ hfree'⟩
  have halone : ∀ k, Plan.Ready ⟨g, codeList⟩ {NodeLabel.hierarchy k} :=
    fun k => ⟨hcodes, hinside, hunlinked, fun K hK => ⟨k, hK⟩⟩
  have hapart := apart_pair hdata codeList
  have hapart' := apart_pair hdata' codeList
  rw [Set.pair_comm] at hapart'
  have hboth := Assures.yieldBoth (company_compatible (Or.inr rfl) hne.symm)
    (company_compatible (Or.inl rfl) hne)
    (achieves_buildFromIds hready hapart.own reading writing placing hapart.data Plan.flags_iff _
      (at_start _ hready hfresh hfrees hapart.own))
    (achieves_buildFromIds hready hapart'.own reading' writing' placing' hapart'.data
      Plan.flags_iff _ (at_start _ hready hfresh hfrees hapart'.own))
  refine hboth.imp ?_
  rintro r r' st ⟨⟨report, rfl, -, h⟩, report', rfl, -, h'⟩
  refine ⟨⟨report, report', rfl, rfl⟩, ?_, ?_⟩
  · have hrun := outline_run_buildFromIds reading writing placing (halone key) hfresh hfree
    rw [hrun]
    exact Milestones.outline_iff_undisturbed hready hapart.own h
  · have hrun := outline_run_buildFromIds reading' writing' placing' (halone key') hfresh hfree'
    rw [hrun]
    exact Milestones.outline_iff_undisturbed hready hapart'.own h'

/-- A build from ids of the hierarchy of a dimension over `twoCodes`. -/
def twoCodesBuild (dimension : String) : Program (Except StoreError BuildReport) :=
  ((Backend.gremlin (.of 1000 10) (.of 150 10)).buildFromIds false ⟨"i", dimension⟩ "list").run

theorem buildFromIds_beside_buildFromIds_twoCodes :
    ScriptedStore.environment.YieldBoth (twoCodesBuild "x") (twoCodesBuild "y") (.ofGraph twoCodes)
      fun r r' st =>
        (∃ report report', r = .ok report ∧ r' = .ok report') ∧
        (st.graph.outline (NodeLabel.hierarchy ⟨"i", "x"⟩) = (Environment.graph.run
            (twoCodesBuild "x") twoCodes).2.outline (NodeLabel.hierarchy ⟨"i", "x"⟩) ↔
          Plan.Undisturbed ⟨twoCodes, "list"⟩ ⟨"i", "x"⟩ false st.log) ∧
        (st.graph.outline (NodeLabel.hierarchy ⟨"i", "y"⟩) = (Environment.graph.run
            (twoCodesBuild "y") twoCodes).2.outline (NodeLabel.hierarchy ⟨"i", "y"⟩) ↔
          Plan.Undisturbed ⟨twoCodes, "list"⟩ ⟨"i", "y"⟩ false st.log) :=
  buildFromIds_beside_buildFromIds (.of 1000 10) (.of 150 10) (.of 1000 10) (.of 150 10) false false
    ⟨"i", "x"⟩ ⟨"i", "y"⟩ "list" twoCodes twoCodes_fresh twoCodes_distinct twoCodes_inside
    twoCodes_unlinked (by decide +kernel) (by decide +kernel) (by decide +kernel)
    (label?_ne_of_ids (by decide +kernel)) (label?_ne_of_ids (by decide +kernel))

/-- The second build clones its nodes, the first build runs from start to end, and the second build
goes on. -/
def cloneThenWait : List Bool :=
  List.replicate 9 false ++ List.replicate 17 true ++ List.replicate 8 false

/-- Two builds from ids can leave something else than they leave alone: the build that has waited
finds the links of its clones cut, and its hierarchy has no parent edge. -/
theorem buildFromIds_disturbs_buildFromIds :
    ¬ ScriptedStore.environment.YieldBoth (twoCodesBuild "x") (twoCodesBuild "y")
      (.ofGraph twoCodes) fun _ _ st =>
        st.graph.outline (NodeLabel.hierarchy ⟨"i", "x"⟩) = (Environment.graph.run
            (twoCodesBuild "x") twoCodes).2.outline (NodeLabel.hierarchy ⟨"i", "x"⟩) ∧
        st.graph.outline (NodeLabel.hierarchy ⟨"i", "y"⟩) = (Environment.graph.run
            (twoCodesBuild "y") twoCodes).2.outline (NodeLabel.hierarchy ⟨"i", "y"⟩) := by
  intro h
  obtain ⟨r, r', -, houtline⟩ :=
    h.alternate cloneThenWait (by decide +kernel) (by decide +kernel)
  -- the outlines differ in the number of edges from the part to the whole
  have hparents := congrArg (fun o : Outline => o.parents (some "part") (some "all")) houtline
  have htogether : ((ScriptedStore.environment.alternate cloneThenWait (twoCodesBuild "x",
      twoCodesBuild "y", .ofGraph twoCodes)).2.2.graph.outline
        (NodeLabel.hierarchy ⟨"i", "y"⟩)).parents (some "part") (some "all") = 0 := by
    decide +kernel
  have halone : ((Environment.graph.run (twoCodesBuild "y") twoCodes).2.outline
      (NodeLabel.hierarchy ⟨"i", "y"⟩)).parents (some "part") (some "all") = 1 := by
    decide +kernel
  have h01 := htogether.symm.trans (hparents.trans halone)
  omega

end Graph
end InstanceHierarchy
