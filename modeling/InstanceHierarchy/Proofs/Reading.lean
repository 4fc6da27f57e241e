import InstanceHierarchy.Proofs.IdBuildOutcome
import InstanceHierarchy.Proofs.Views

/-!
# What is read after a build

After a build the reads fit together.  The number of children that is stored with a node counts
edges, the children are found along edges and filtered by their label, and the ancestors are found
by a search; all three are the same for the codes of the code list, because the hierarchy has one
node for each relevant code, one edge for each parent edge between relevant codes, and nothing
else.  Every ancestor of a relevant code is relevant, so no ancestor is missing.

Places change the order in which children are listed and nothing else that is said here.
-/

namespace InstanceHierarchy

open Relation

/-! ## The hierarchy that a build leaves -/

theorem Graph.Relevant.parent {g : Graph} {label c p : String} {codes : List String}
    (h : g.Relevant label codes c) (hp : g.CodeParent label c p) : g.Relevant label codes p := by
  obtain ⟨d, hd, hchain⟩ := h
  exact ⟨d, hd, hchain.tail hp⟩

theorem Graph.Relevant.steps {g : Graph} {label c p : String} {codes : List String} {n : Nat}
    (h : g.Relevant label codes c) (hsteps : Steps (g.CodeParent label) n c p) :
    g.Relevant label codes p := by
  induction n generalizing p with
  | zero => exact hsteps ▸ h
  | succ n ih =>
      obtain ⟨q, hq, hp⟩ := hsteps
      exact (ih hq).parent hp

namespace Plan

variable {P : Plan} {codes : List String} {L : Set String} {placing : Bool}

theorem get?_withPlace (s : Id) (ps : Properties) {key : String} (h : key ≠ Property.order) :
    (P.withPlace s ps).get? key = ps.get? key := by
  unfold withPlace
  cases P.place s with
  | none => rfl
  | some order => exact (Table.get?_insert ps _ key _).trans (if_neg fun hk => h hk.symm)

theorem get?_cloneProperties {data : Id → Bool} (p : Progress) (n : Node) {key : String}
    (h : key ≠ Property.order) : (P.cloneProperties data p n).get? key =
      (Graph.cloneProperties n n.cloneCode P.codeList (data n.id)).get? key := by
  unfold cloneProperties
  by_cases hplaced : p.placed n.id
  · simp only [if_pos hplaced]
    exact get?_withPlace n.id _ h
  · simp only [if_neg hplaced]

variable (hready : P.Ready L)

include hready

theorem isSome_outcome {c : String} : ((P.outcome codes placing).properties c).isSome ↔
    P.start.Relevant (NodeLabel.generic P.codeList) codes c := by
  unfold outcome
  rw [Picture.isSome_count, isSome_sketch hready.distinct]
  exact exists_relevant_iff hready

/-- A clone is stored with the properties that cloning gives it, but for its place and the number of
its children. -/
theorem get?_outcome {c : String} {ps : Properties}
    (h : (P.outcome codes placing).properties c = some ps) :
    ∃ n ∈ P.sources, n.cloneCode = c ∧
      ps.get? Property.numberOfChildren = some ((P.outcome codes placing).childCount c) ∧
      ∀ key, key ≠ Property.order → key ≠ Property.numberOfChildren → ps.get? key =
        (Graph.cloneProperties n n.cloneCode P.codeList (n.cloneCode ∈ codes)).get? key := by
  have hc := (isSome_outcome hready).1 (Option.isSome_iff_exists.2 ⟨ps, h⟩)
  obtain ⟨n, hn, rfl⟩ := hc.source
  have hw : P.Relevant codes n.id := (relevant_iff hready hn).2 hc
  have hflag : P.flags codes n.id = decide (n.cloneCode ∈ codes) := by
    rw [Bool.eq_iff_iff, flags_iff, carries_iff hn, decide_eq_true_eq]
  unfold outcome at h
  rw [Picture.properties_count_all, properties_sketch hready.distinct hn hw] at h
  obtain rfl := Option.some.inj h
  refine ⟨n, hn, rfl, (Table.get?_insert _ _ _ _).trans (if_pos rfl), ?_⟩
  intro key hplace hnumber
  rw [Table.get?_insert, if_neg fun hk => hnumber hk.symm, get?_cloneProperties _ _ hplace, hflag]

/-- What is stored with the clone for a code, its place excepted. -/
theorem properties_outcome {c : String} {ps : Properties}
    (h : (P.outcome codes placing).properties c = some ps) :
    ps.get? Property.hasData = some (.bool (c ∈ codes)) ∧
      ps.get? Property.codeList = some (.str P.codeList) ∧
      (∃ n ∈ P.sources, n.cloneCode = c ∧
        ps.get? Property.label = n.properties.get? Property.label) ∧
      ps.get? Property.numberOfChildren = some ((P.outcome codes placing).childCount c) := by
  obtain ⟨n, hn, rfl, hnumber, hclone⟩ := get?_outcome hready h
  refine ⟨?_, ?_, ⟨n, hn, rfl, ?_⟩, hnumber⟩
  · refine (hclone _ (by decide) (by decide)).trans ?_
    rw [Graph.get?_cloneProperties, if_neg (by decide), if_pos rfl]
  · refine (hclone _ (by decide) (by decide)).trans ?_
    rw [Graph.get?_cloneProperties, if_neg (by decide), if_neg (by decide), if_pos rfl]
  · refine (hclone _ (by decide) (by decide)).trans ?_
    rw [Graph.get?_cloneProperties, if_neg (by decide), if_neg (by decide), if_neg (by decide),
      if_pos rfl]

theorem parent_outcome {c d : String} : (P.outcome codes placing).parent c d ↔
    P.start.CodeParent (NodeLabel.generic P.codeList) c d ∧
      P.start.Relevant (NodeLabel.generic P.codeList) codes c ∧
      P.start.Relevant (NodeLabel.generic P.codeList) codes d := parent_final hready

/-- Above a relevant code there are the same chains in the hierarchy and in the code list. -/
theorem steps_outcome {c d : String} {n : Nat}
    (hc : P.start.Relevant (NodeLabel.generic P.codeList) codes c) :
    Steps (P.outcome codes placing).parent n c d ↔
      Steps (P.start.CodeParent (NodeLabel.generic P.codeList)) n c d := by
  constructor
  · exact fun h => h.mono fun _ _ hp => ((parent_outcome hready).1 hp).1
  · intro h
    induction n generalizing d with
    | zero => exact h
    | succ n ih =>
        obtain ⟨q, hq, hp⟩ := h
        have hrelevant := hc.steps hq
        exact ⟨q, ih hq, (parent_outcome hready).2 ⟨hp, hrelevant, hrelevant.parent hp⟩⟩

end Plan

namespace Graph

open Environment

variable {g g' : Graph}

/-- What a build with either kind of backend leaves when it is alone; only a build from ids gives
places. -/
theorem yields_build (b : Backend) (placing : Bool) {P : Plan} {key : HierarchyKey}
    (hready : P.Ready {NodeLabel.hierarchy key}) (hfresh : P.start.Fresh)
    (hfree : ∀ id, P.start.label? id ≠ some (NodeLabel.hierarchy key)) :
    Environment.graph.Yields (b.build placing key P.codeList).run P.start fun r g' =>
      (∃ report, r = .ok report) ∧ Stage {NodeLabel.hierarchy key} (NodeLabel.hierarchy key) P.start
        (P.outcome (P.start.dataCodes (NodeLabel.data key)) (b.supportsIds && placing)) g' := by
  cases b with
  | gremlin reading writing =>
      refine (yields_buildFromIds reading writing placing hready hfresh hfree).imp ?_
      rintro r g' ⟨⟨sources, rfl⟩, hstage⟩
      exact ⟨⟨_, rfl⟩, hstage⟩
  | cypher retry =>
      have hbulk := (achieves_buildBulk (.cypher retry) (apart_alone key P.codeList) P.start
        (.start hfresh (fun K hK => hK ▸ hfree) rfl)).yields
      refine hbulk.imp ?_
      rintro r g' ⟨report, rfl, -, hstage⟩
      rw [← Plan.outcome_eq_instanceOf hready] at hstage
      exact ⟨⟨_, rfl⟩, hstage⟩

/-! ## What is read of it -/

/-- What the view of the node with a code shows after a build.  Distances are measured in parent
edges of the code list, by at least one. -/
structure ViewOutcome (g g' : Graph) (key : HierarchyKey) (codeList : Id) (c : String)
    (view : ElementView) : Prop where
  id : view.id = c
  label : ∃ n ∈ g.nodesWithLabel (NodeLabel.generic codeList),
    n.cloneCode = c ∧ n.text? Property.label = some view.label
  hasData : view.hasData = true ↔ g.HasValue key c
  /-- A stored number is read as one of 64 bits, which no list in memory outgrows. -/
  count : (view.children.length : Int) ≤ Limit.int64Max →
    view.numberOfChildren = view.children.length
  children : Names view.children fun k => (∃ id, g'.Coded (NodeLabel.hierarchy key) k id) ∧
    g.CodeParent (NodeLabel.generic codeList) k c
  breadcrumbs : Names view.breadcrumbs (TransGen (g.CodeParent (NodeLabel.generic codeList)) c)
  nearestFirst : view.breadcrumbs.Pairwise fun a b =>
    distance (g.CodeParent (NodeLabel.generic codeList)) c a.id ≤
      distance (g.CodeParent (NodeLabel.generic codeList)) c b.id

/-- What a reader finds after a build.  The clones are those of the wanted codes. -/
structure Readable (g g' : Graph) (key : HierarchyKey) (codeList : Id) (r : Reader) : Prop where
  clones : ∀ c, (∃ id, g'.Coded (NodeLabel.hierarchy key) c id) ↔ g.Wanted key codeList c
  found : ∀ c id, g'.Coded (NodeLabel.hierarchy key) c id → ∃ view,
    Environment.graph.run (r.element key c).run g' = (.ok view, g') ∧
      ViewOutcome g g' key codeList c view
  notFound : ∀ c, (∀ id, ¬ g'.Coded (NodeLabel.hierarchy key) c id) →
    Environment.graph.run (r.element key c).run g' = (.error .notFound, g')
  counted : ∃ n : Nat, Environment.graph.run (r.countNodes key).run g' = (.ok n, g') ∧
    Set.encard { c | ∃ view, (Environment.graph.run (r.element key c).run g').1 = .ok view } = n

section Outcome

variable {P : Plan} {key : HierarchyKey} {placing : Bool}
  (hready : P.Ready {NodeLabel.hierarchy key})
  (h : Stage {NodeLabel.hierarchy key} (NodeLabel.hierarchy key) P.start
    (P.outcome (P.start.dataCodes (NodeLabel.data key)) placing) g')

include hready h

theorem Stage.relevant_iff {c : String} : (∃ id, g'.Coded (NodeLabel.hierarchy key) c id) ↔
    P.start.Relevant (NodeLabel.generic P.codeList) (P.start.dataCodes (NodeLabel.data key)) c := by
  rw [← Plan.isSome_outcome hready, Option.isSome_iff_exists]
  constructor
  · rintro ⟨id, hid⟩
    obtain ⟨ps, hps, -⟩ := h.shows.properties_of_coded hid
    exact ⟨ps, hps⟩
  · rintro ⟨ps, hps⟩
    obtain ⟨id, -, hid⟩ := h.shows.exists_coded hps
    exact ⟨id, hid⟩

omit hready in
theorem Stage.properties_clone {n : Node} (hn : n ∈ g'.nodesWithLabel (NodeLabel.hierarchy key)) :
    (P.outcome (P.start.dataCodes (NodeLabel.data key)) placing).properties n.cloneCode =
      some n.properties := by
  obtain ⟨ps, hps, hget⟩ := h.shows.properties_of_coded ((h.sound.tidy _ rfl).coded_node hn)
  obtain ⟨-, hnode⟩ := mem_nodesWithLabel.1 hn
  have hsame : n.vertex = ⟨NodeLabel.hierarchy key, ps⟩ := Option.some.inj (hnode.symm.trans hget)
  exact hps.trans (congrArg (some ·.properties) hsame.symm)

/-- Clones have the titles of their sources. -/
theorem Stage.title {n : Node} (hn : n ∈ g'.nodesWithLabel (NodeLabel.hierarchy key)) :
    ∃ m ∈ P.sources, m.cloneCode = n.cloneCode ∧
      m.text? Property.label = n.text? Property.label := by
  obtain ⟨-, -, ⟨m, hm, hcode, hlabel⟩, -⟩ :=
    Plan.properties_outcome hready (h.properties_clone hn)
  refine ⟨m, hm, hcode, ?_⟩
  unfold Node.text?
  rw [hlabel]

theorem Stage.titled (htitled : P.start.Titled (NodeLabel.generic P.codeList)) :
    g'.Titled (NodeLabel.hierarchy key) := by
  intro n hn
  obtain ⟨m, hm, -, htitle⟩ := h.title hready hn
  rw [← htitle]
  exact htitled m hm

theorem Stage.viewOutcome (htitled : P.start.Titled (NodeLabel.generic P.codeList)) {n : Node}
    (hn : n ∈ g'.nodesWithLabel (NodeLabel.hierarchy key)) :
    ViewOutcome P.start g' key P.codeList n.cloneCode
      (g'.viewOf (NodeLabel.hierarchy key) n) := by
  have ht := h.sound.tidy _ rfl
  have hc := (h.relevant_iff hready).1 ⟨n.id, ht.coded_node hn⟩
  obtain ⟨hdata, -, -, hnumber⟩ := Plan.properties_outcome hready (h.properties_clone hn)
  obtain ⟨hchildren, hlength⟩ := names_children h.shows ht hn
  obtain ⟨hbreadcrumbs, hascend⟩ := names_breadcrumbs h.shows ht hn
  have hdistance : ∀ d, distance (P.outcome (P.start.dataCodes (NodeLabel.data key)) placing).parent
      n.cloneCode d = distance (P.start.CodeParent (NodeLabel.generic P.codeList)) n.cloneCode d :=
    fun d => distance_congr fun _ _ => Plan.steps_outcome hready hc
  constructor
  · rfl
  · obtain ⟨m, hm, hcode, htitle⟩ := h.title hready hn
    obtain ⟨title, hsome⟩ := Option.isSome_iff_exists.1 (htitled m hm)
    refine ⟨m, hm, hcode, ?_⟩
    show m.text? Property.label = some ((n.text? Property.label).getD "")
    rw [← htitle, hsome]
    rfl
  · show (n.bool? Property.hasData).getD false = true ↔ _
    unfold Node.bool?
    rw [hdata, ← mem_dataCodes]
    exact decide_eq_true_iff
  · intro hbound
    show (n.int64? Property.numberOfChildren).getD 0 = _
    unfold Node.int64?
    rw [hnumber]
    rw [hlength] at hbound ⊢
    -- the number of the children is not negative, and it is small enough to be read
    exact congrArg (Option.getD · 0) (if_pos ⟨by unfold Limit.int64Min; omega, hbound⟩)
  · refine hchildren.congr fun k => ?_
    rw [Plan.parent_outcome hready, h.relevant_iff hready]
    exact ⟨fun hk => ⟨hk.2.1, hk.1⟩, fun hk => ⟨hk.2, hk.1, hc⟩⟩
  · refine hbreadcrumbs.congr fun d => ?_
    exact transGen_congr fun _ _ => Plan.steps_outcome hready hc
  · simp only [hdistance] at hascend
    exact hascend

theorem Stage.readable (htitled : P.start.Titled (NodeLabel.generic P.codeList)) (r : Reader) :
    Readable P.start g' key P.codeList r := by
  have ht := h.sound.tidy _ rfl
  have htitled' := h.titled hready htitled
  refine ⟨fun c => (h.relevant_iff hready).trans hready.distinct.relevant_iff, ?_,
    fun c hc => run_element_of_not r hc, run_countNodes r ht htitled'⟩
  intro c id hc
  obtain ⟨n, hn, -, rfl⟩ := ht.distinct.coded_iff.1 hc
  exact ⟨_, run_element r ht htitled' hn, h.viewOutcome hready htitled hn⟩

end Outcome

/-- After a build, with either kind of backend, the reads of the hierarchy agree with one another
and with the code list. -/
theorem build_readable (b : Backend) (placing : Bool) (key : HierarchyKey) (codeList : Id)
    (g : Graph) (r : Reader) (hfresh : g.Fresh)
    (hcodes : g.DistinctCodes (NodeLabel.generic codeList))
    (htitled : g.Titled (NodeLabel.generic codeList))
    (hinside : ∀ s t, g.Up s t → g.label? s = some (NodeLabel.generic codeList) →
      g.label? t = some (NodeLabel.generic codeList))
    (hfree : ∀ id, g.label? id ≠ some (NodeLabel.hierarchy key))
    (hunlinked : ∀ s t, ¬ g.Joined EdgeLabel.cloneOf s t) :
    Environment.graph.Yields (b.build placing key codeList).run g fun result g' =>
      (∃ report, result = .ok report) ∧ Readable g g' key codeList r := by
  have hready : Plan.Ready ⟨g, codeList⟩ {NodeLabel.hierarchy key} :=
    ⟨hcodes, hinside, hunlinked, fun K hK => ⟨key, hK⟩⟩
  refine (yields_build b placing hready hfresh hfree).imp ?_
  rintro result g' ⟨hreport, hstage⟩
  exact ⟨hreport, hstage.readable hready htitled r⟩

/-- A generic hierarchy of three nodes with titles, two of them each above the other, of which the
third one has data. -/
def threeTitles : Graph where
  nodes := Table.ofList
    [("a", ⟨NodeLabel.generic "list",
        Table.ofList [(Property.code, .str "all"), (Property.label, .str "All")]⟩),
      ("b", ⟨NodeLabel.generic "list",
        Table.ofList [(Property.code, .str "most"), (Property.label, .str "Most")]⟩),
      ("c", ⟨NodeLabel.generic "list",
        Table.ofList [(Property.code, .str "part"), (Property.label, .str "Part")]⟩),
      ("x", ⟨NodeLabel.data ⟨"i", "x"⟩, Table.ofList [(Property.value, .str "part")]⟩)]
  edges :=
    [⟨⟨"d", EdgeLabel.hasParent, "c", "b"⟩, .empty⟩, ⟨⟨"e", EdgeLabel.hasParent, "b", "a"⟩, .empty⟩,
      ⟨⟨"f", EdgeLabel.hasParent, "a", "b"⟩, .empty⟩]
  supply := ⟨longerAndLonger 2, 0⟩

theorem build_readable_threeTitles :
    Environment.graph.Yields ((Backend.gremlin (.of 1 2) (.of 1 2)).build true ⟨"i", "x"⟩
      "list").run threeTitles fun result g' =>
        (∃ report, result = .ok report) ∧
          Readable threeTitles g' ⟨"i", "x"⟩ "list" ⟨.gremlin⟩ :=
  build_readable (.gremlin (.of 1 2) (.of 1 2)) true ⟨"i", "x"⟩ "list" threeTitles ⟨.gremlin⟩
    (fresh_of_short rfl (by decide +kernel) (by decide +kernel))
    (.of_nodup (by decide +kernel) (by decide +kernel)) (by unfold Titled; decide +kernel)
    (inside_of_edges (by decide +kernel)) (label?_ne_of_ids (by decide +kernel))
    (unlinked_of_edges (by decide +kernel))

end Graph
end InstanceHierarchy
