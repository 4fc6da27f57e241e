import InstanceHierarchy.Proofs.ArrivingData

/-!
# Builds from ids that find more data than the last one

A build from ids that finds the hierarchy of an earlier build takes the nodes with known codes for
its clones, as they are.  When data has arrived in between, a code that was cloned for the sake of
its descendants alone may have data of its own now, and its node goes on saying that it has none.
But for that the hierarchy is the one that a single build leaves which finds all the data: codes,
parent edges, numbers of children and places are the same.
-/

namespace InstanceHierarchy

open Environment

/-! ## Leaving out a property -/

/-- The outline of a hierarchy in which one property of the nodes is left out. -/
def Outline.without (o : Outline) (key : String) : Outline :=
  { o with nodes := fun c => (o.nodes c).map (·.erase key) }

namespace Picture

/-- The picture of a hierarchy in which one property of the nodes is left out. -/
def without (pic : Picture) (key : String) : Picture := pic.rewrite fun _ ps => ps.erase key

theorem properties_without (pic : Picture) (key c : String) :
    (pic.without key).properties c = (pic.properties c).map (·.erase key) := rfl

theorem outline_without (pic : Picture) (key : String) :
    (pic.without key).outline = pic.outline.without key := by
  refine Outline.ext (funext fun c => ?_) rfl
  cases c with
  | none => rfl
  | some c =>
      show (((pic.without key).properties c).toList : Multiset Properties) =
        Multiset.map (·.erase key) ((pic.properties c).toList : Multiset Properties)
      rw [properties_without]
      cases pic.properties c <;> rfl

end Picture

/-! ## Sketches with other flags -/

namespace Plan

variable {P : Plan} {data data' : Id → Bool} {p : Progress}

/-- The flag of a clone is independent of its other properties. -/
theorem cloneProperties_reflag (data data' : Id → Bool) (p : Progress) (n : Node) :
    P.cloneProperties data p n =
      (P.cloneProperties data' p n).insert Property.hasData (.bool (data n.id)) := by
  have hbare := Picture.insert_hasData n n.cloneCode P.codeList (data' n.id) (data n.id)
  unfold cloneProperties
  by_cases hplaced : p.placed n.id
  · simp only [if_pos hplaced, ← hbare]
    unfold withPlace
    cases P.place n.id with
    | none => rfl
    | some order =>
        refine Table.ext_get? fun k => ?_
        simp only [Table.get?_insert]
        by_cases hk : Property.order = k
        · subst hk
          rfl
        · rw [if_neg hk, if_neg hk]
  · simp only [if_neg hplaced, hbare]

theorem sketch_reflag (h : ∀ n ∈ P.sources, p.cloned n.id → data n.id = data' n.id) :
    P.sketch data p = P.sketch data' p := by
  refine sketch_congr rfl (fun _ _ => Iff.rfl) fun n hn hcloned => ?_
  unfold cloneProperties
  rw [h n hn hcloned]

theorem parent_counted (data data' : Id → Bool) (p : Progress) :
    ((P.sketch data p).count fun _ => True).parent =
      ((P.sketch data' p).count fun _ => True).parent := by
  show (P.sketch data p).parent = (P.sketch data' p).parent
  unfold sketch
  rfl

theorem childCount_sketch (data data' : Id → Bool) (p : Progress) (c : String) :
    (P.sketch data p).childCount c = (P.sketch data' p).childCount c := by
  unfold Picture.childCount sketch
  rfl

variable (hP : P.start.DistinctCodes (NodeLabel.generic P.codeList))

include hP

theorem properties_counted {n : Node} (hn : n ∈ P.sources) (h : p.cloned n.id) :
    ((P.sketch data p).count fun _ => True).properties n.cloneCode =
      some ((P.cloneProperties data p n).insert Property.numberOfChildren
        ((P.sketch data p).childCount n.cloneCode)) := by
  rw [Picture.properties_count_all, properties_sketch hP hn h]
  rfl

/-- A node is the clone of a source, and is flagged as that is to be. -/
theorem flag_counted {c : String} {ps : Properties}
    (h : ((P.sketch data p).count fun _ => True).properties c = some ps) :
    ∃ n ∈ P.sources, p.cloned n.id ∧ n.cloneCode = c ∧
      ps.get? Property.hasData = some (.bool (data n.id)) := by
  have hsome := Option.isSome_iff_exists.2 ⟨ps, h⟩
  rw [Picture.isSome_count] at hsome
  obtain ⟨n, hn, hcloned, rfl⟩ := (isSome_sketch hP).1 hsome
  rw [properties_counted hP hn hcloned] at h
  refine ⟨n, hn, hcloned, rfl, ?_⟩
  rw [← Option.some.inj h, Table.get?_insert, if_neg (by decide),
    cloneProperties_reflag data data, Table.get?_insert, if_pos rfl]

/-- The hierarchies are the same if and only if they flag the same clones. -/
theorem properties_counted_iff : ((P.sketch data p).count fun _ => True).properties =
    ((P.sketch data' p).count fun _ => True).properties ↔
      ∀ n ∈ P.sources, p.cloned n.id → data n.id = data' n.id := by
  constructor
  · intro h n hn hcloned
    have hps : ((P.sketch data p).count fun _ => True).properties n.cloneCode = some _ :=
      properties_counted hP hn hcloned
    obtain ⟨m, hm, -, hcode, hflag⟩ := flag_counted hP hps
    rw [h] at hps
    obtain ⟨m', hm', -, hcode', hflag'⟩ := flag_counted hP hps
    rw [code_inj hP hm hn hcode] at hflag
    rw [code_inj hP hm' hn hcode', hflag] at hflag'
    exact Json.bool.inj (Option.some.inj hflag')
  · intro h
    rw [sketch_reflag h]

/-- But for the flags the hierarchies are always the same. -/
theorem counted_without : ((P.sketch data p).count fun _ => True).without Property.hasData =
    ((P.sketch data' p).count fun _ => True).without Property.hasData := by
  refine Picture.ext (funext fun c => ?_) (parent_counted data data' p) ?_
  · rw [Picture.properties_without, Picture.properties_without]
    by_cases hsource : ∃ n ∈ P.sources, p.cloned n.id ∧ n.cloneCode = c
    · obtain ⟨n, hn, hcloned, rfl⟩ := hsource
      rw [properties_counted hP hn hcloned, properties_counted hP hn hcloned,
        cloneProperties_reflag data data', childCount_sketch data data', Option.map_some,
        Option.map_some, Table.erase_insert_of_ne _ _ (by decide), Table.erase_insert_self,
        Table.erase_insert_of_ne _ _ (by decide)]
    · have hnone : ∀ data : Id → Bool,
          ((P.sketch data p).count fun _ => True).properties c = none := by
        intro data
        rw [← Option.not_isSome_iff_eq_none, Picture.isSome_count, isSome_sketch hP]
        exact hsource
      rw [hnone, hnone]
  · show (P.sketch data p).link = (P.sketch data' p).link
    unfold sketch
    rfl

end Plan

namespace Graph

variable {P : Plan} {data data' : Id → Bool} {old : Id → Prop} {key : HierarchyKey}
  {placing : Bool} {counted : String → Prop} {m : Milestones} {g : Graph}

namespace Underway

/-- What is to be flagged matters for wanted sources alone. -/
theorem reflag (h : Underway P data old key placing counted m g)
    (hdata : ∀ s, P.Wanted key s → data s = data' s) :
    Underway P data' old key placing counted m g := by
  obtain ⟨pic, hpic, hdraft⟩ := h.shows
  obtain ⟨p, hsketch, hp, hm⟩ := hdraft.sketched
  have hsame : P.sketch data p = P.sketch data' p :=
    Plan.sketch_reflag fun n _ hcloned => hdata n.id (hp.cloned n.id hcloned)
  exact { h with shows := ⟨pic, hpic, ⟨p, hsketch.trans hsame, hp, hm⟩, hdraft.counted⟩ }

/-- When all wanted sources are cloned, they are old ones for the next build. -/
theorem aged (h : Underway P data old key placing counted m g)
    (hready : P.Ready {NodeLabel.hierarchy key}) (hcloned : m.cloned = P.Wanted key) :
    Underway P data (P.Wanted key) key placing counted m g := by
  obtain ⟨pic, hpic, hdraft⟩ := h.shows
  refine { h with clones := fun s hs => ?_ }
  obtain ⟨n, hn, rfl⟩ := hs.source hready
  have hcode := (hdraft.isSome_iff hready.distinct hcloned n.cloneCode).2 ⟨n, hn, hs, rfl⟩
  obtain ⟨ps, hps⟩ := Option.isSome_iff_exists.1 hcode
  obtain ⟨id, -, hid⟩ := hpic.exists_coded hps
  exact ⟨n, hn, rfl, id, hid⟩

end Underway

/-! ## Two builds -/

open Classical in
/-- How a hierarchy is flagged that is built twice: what was wanted at first keeps its flags. -/
noncomputable def flagsTwice (P P' : Plan) (key : HierarchyKey) (s : Id) : Bool :=
  if P.Wanted key s then P.flags (P.start.dataCodes (NodeLabel.data key)) s
  else P'.flags (P'.start.dataCodes (NodeLabel.data key)) s

/-- No code that was in the hierarchy without data of its own has data later. -/
def NoLateData (key : HierarchyKey) (codeList : Id) (start later : Graph) : Prop :=
  ∀ c, start.Relevant (NodeLabel.generic codeList) (start.dataCodes (NodeLabel.data key)) c →
    c ∈ later.dataCodes (NodeLabel.data key) → c ∈ start.dataCodes (NodeLabel.data key)

/-- What two builds leave, the second of which found more data, beside what a single build leaves
that found all of it. -/
structure BuiltTwice (key : HierarchyKey) (codeList : Id) (start later twice once : Graph) :
    Prop where
  /-- But for the flags the hierarchies are the same. -/
  others : (twice.outline (NodeLabel.hierarchy key)).without Property.hasData =
    (once.outline (NodeLabel.hierarchy key)).without Property.hasData
  /-- What was in the hierarchy after the first build has the flags of that build, -/
  early : ∀ id ps c, twice.nodes.get? id = some ⟨NodeLabel.hierarchy key, ps⟩ →
    codeIn ps = some c →
    start.Relevant (NodeLabel.generic codeList) (start.dataCodes (NodeLabel.data key)) c →
    ps.get? Property.hasData = some (.bool (c ∈ start.dataCodes (NodeLabel.data key)))
  /-- and what came with the second one has true ones. -/
  late : ∀ id ps c, twice.nodes.get? id = some ⟨NodeLabel.hierarchy key, ps⟩ →
    codeIn ps = some c →
    ¬ start.Relevant (NodeLabel.generic codeList) (start.dataCodes (NodeLabel.data key)) c →
    ps.get? Property.hasData = some (.bool (c ∈ later.dataCodes (NodeLabel.data key)))
  same_iff : twice.outline (NodeLabel.hierarchy key) = once.outline (NodeLabel.hierarchy key) ↔
    NoLateData key codeList start later
  sameButIds : NoLateData key codeList start later → SameButIds later once twice

section Twice

variable {P' : Plan} {ns : List Node} (hready : P.Ready {NodeLabel.hierarchy key})
  (hext : Extends placing key ns P P')

theorem flagsTwice_early {s : Id} (hs : P.Wanted key s) :
    flagsTwice P P' key s = P.flags (P.start.dataCodes (NodeLabel.data key)) s := if_pos hs

theorem flagsTwice_late {s : Id} (hs : ¬ P.Wanted key s) :
    flagsTwice P P' key s = P'.flags (P'.start.dataCodes (NodeLabel.data key)) s := if_neg hs

include hext

theorem Extends.wanted {s : Id} (hs : P.Wanted key s) : P'.Wanted key s :=
  (hext.relevant _ _).2 (hs.mono hext.dataCodes)

include hready

/-- The flags are those of a single build if and only if no data came late. -/
theorem flagsTwice_iff : (∀ n ∈ P'.sources, P'.Wanted key n.id →
      flagsTwice P P' key n.id = P'.flags (P'.start.dataCodes (NodeLabel.data key)) n.id) ↔
    NoLateData key P.codeList P.start P'.start := by
  constructor
  · intro h c hc hlater
    obtain ⟨n, hn, rfl⟩ := hc.source
    have hwanted : P.Wanted key n.id := (Plan.relevant_iff hready hn).2 hc
    have hn' : n ∈ P'.sources := hext.sources.symm ▸ hn
    have hflags := h n hn' (hext.wanted hwanted)
    rw [flagsTwice_early hwanted, Plan.flags_source hn, Plan.flags_source hn'] at hflags
    exact (decide_eq_decide.1 hflags).2 hlater
  · intro h n hn' _
    by_cases hwanted : P.Wanted key n.id
    · have hn : n ∈ P.sources := hext.sources ▸ hn'
      rw [flagsTwice_early hwanted, Plan.flags_source hn, Plan.flags_source hn', decide_eq_decide]
      exact ⟨hext.dataCodes _, h _ ((Plan.relevant_iff hready hn).1 hwanted)⟩
    · exact flagsTwice_late hwanted

/-- What two builds leave, told from the hierarchies that they and a single one leave. -/
theorem builtTwice {twice once : Graph}
    (h : Settled P'.start (NodeLabel.hierarchy key)
      ((P'.sketch (flagsTwice P P' key) (.final (P'.Wanted key) placing)).count fun _ => True)
      (Underway.CodeJoined P' key placing) twice)
    (h₀ : Settled P'.start (NodeLabel.hierarchy key)
      (P'.outcome (P'.start.dataCodes (NodeLabel.data key)) placing)
      (Underway.CodeJoined P' key placing) once) :
    BuiltTwice key P.codeList P.start P'.start twice once := by
  have hdistinct := hext.ready.distinct
  have hflag : ∀ id ps c, twice.nodes.get? id = some ⟨NodeLabel.hierarchy key, ps⟩ →
      codeIn ps = some c → ∃ n ∈ P.sources, n ∈ P'.sources ∧ n.cloneCode = c ∧
        ps.get? Property.hasData = some (.bool (flagsTwice P P' key n.id)) := by
    intro id ps c hid hc
    obtain ⟨n, hn, -, hcode, hflag⟩ :=
      Plan.flag_counted hdistinct ((h.shows.properties c ps).2 ⟨id, hid, hc⟩)
    exact ⟨n, hext.sources ▸ hn, hn, hcode, hflag⟩
  constructor
  · rw [outline_eq h.shows h.tidy, outline_eq h₀.shows h₀.tidy, ← Picture.outline_without,
      ← Picture.outline_without]
    exact congrArg Picture.outline (Plan.counted_without hdistinct)
  · intro id ps c hid hc hrelevant
    obtain ⟨n, hn, -, rfl, hps⟩ := hflag id ps c hid hc
    rw [hps, flagsTwice_early ((Plan.relevant_iff hready hn).2 hrelevant), Plan.flags_source hn]
  · intro id ps c hid hc hirrelevant
    obtain ⟨n, hn, hn', rfl, hps⟩ := hflag id ps c hid hc
    rw [hps, flagsTwice_late fun hw => hirrelevant ((Plan.relevant_iff hready hn).1 hw),
      Plan.flags_source hn']
  · rw [outline_eq h.shows h.tidy, outline_eq h₀.shows h₀.tidy, Picture.outline_eq_iff,
      ← flagsTwice_iff hready hext]
    exact (and_iff_left (Plan.parent_counted _ _ _)).trans (Plan.properties_counted_iff hdistinct)
  · intro hnone
    rw [Plan.sketch_reflag ((flagsTwice_iff hready hext).2 hnone)] at h
    exact h₀.sameButIds h hext.fresh

omit hready in
/-- The second build finds clones of all that was wanted at first, and flags what it adds. -/
theorem Extends.yields_second (reading writing : BatchScheduler)
    (h : Underway P (flagsTwice P P' key) (P.Wanted key) key placing counted m g) :
    graph.Yields ((Backend.gremlin reading writing).buildFromIds placing key P'.codeList).run
      (g.addNodes ns) fun r twice =>
        (∃ t, P'.Holds (P'.Wanted key) t ∧ r = .ok (P'.report key t.size)) ∧
          Settled P'.start (NodeLabel.hierarchy key)
            ((P'.sketch (flagsTwice P P' key) (.final (P'.Wanted key) placing)).count fun _ => True)
            (Underway.CodeJoined P' key placing) twice := by
  refine ((hext.underway h).finishes hext.ready hext.fresh reading writing fun s _ => ?_).imp
    fun _ _ hend => ⟨hend.1, hend.2.settled⟩
  by_cases hs : P.Wanted key s
  · exact Or.inl hs
  · rw [flagsTwice_late hs]
    exact Or.inr (Plan.flags_iff s)

omit hext in
/-- The first build clones all that is wanted then, however other sources are to be flagged. -/
theorem yields_first (P' : Plan) (reading writing : BatchScheduler) (hfresh : P.start.Fresh)
    (hfree : ∀ id, P.start.label? id ≠ some (NodeLabel.hierarchy key)) :
    graph.Yields ((Backend.gremlin reading writing).buildFromIds placing key P.codeList).run
      P.start fun r g => (∃ report, r = .ok report) ∧
        Underway P (flagsTwice P P' key) (P.Wanted key) key placing (fun _ => True)
          (.finished (P.Wanted key) placing) g := by
  have hstart : Underway P (P.flags (P.start.dataCodes (NodeLabel.data key))) (fun _ => False) key
      placing (fun _ => False) .start P.start := .start hready hfresh hfree
  refine (hstart.finishes hready hfresh reading writing fun s _ => Or.inr (Plan.flags_iff s)).imp ?_
  rintro r g ⟨⟨t, -, rfl⟩, h⟩
  have hcloned : (Milestones.finished (P.Wanted key) placing).cloned = P.Wanted key := by
    cases placing <;> rfl
  exact ⟨⟨_, rfl⟩, (h.reflag fun s hs => (flagsTwice_early hs).symm).aged hready hcloned⟩

end Twice

/-- A build, then data nodes that arrive, then another build: both succeed, and the second one gives
the report of a single build that finds all the data.  Whether it leaves the same hierarchy depends
on the codes that the first build cloned for the sake of their descendants alone. -/
theorem buildFromIds_twice
    (reading writing reading' writing' reading₀ writing₀ : BatchScheduler) (placing : Bool)
    (key : HierarchyKey) (codeList : Id) (start : Graph) (ns : List Node) (hfresh : start.Fresh)
    (hcodes : start.DistinctCodes (NodeLabel.generic codeList))
    (hinside : ∀ s t, start.Up s t → start.label? s = some (NodeLabel.generic codeList) →
      start.label? t = some (NodeLabel.generic codeList))
    (hfree : ∀ id, start.label? id ≠ some (NodeLabel.hierarchy key))
    (hunlinked : ∀ s t, ¬ start.Joined EdgeLabel.cloneOf s t)
    (hids : (ns.map (·.id)).Nodup) (hns : ∀ n ∈ ns, Arriving placing key codeList start n) :
    graph.Yields ((Backend.gremlin reading writing).buildFromIds placing key codeList).run start
      fun r₁ g₁ => (∃ report, r₁ = .ok report) ∧
        graph.Yields ((Backend.gremlin reading' writing').buildFromIds placing key codeList).run
          (g₁.addNodes ns) fun r twice =>
            graph.Yields ((Backend.gremlin reading₀ writing₀).buildFromIds placing key
              codeList).run (start.addNodes ns) fun r₀ once =>
                (∃ report, r = .ok report) ∧ r = r₀ ∧
                  BuiltTwice key codeList start (start.addNodes ns) twice once := by
  have hready : Plan.Ready ⟨start, codeList⟩ {NodeLabel.hierarchy key} :=
    ⟨hcodes, hinside, hunlinked, fun K hK => ⟨key, hK⟩⟩
  have hext : Extends placing key ns ⟨start, codeList⟩ ⟨start.addNodes ns, codeList⟩ :=
    extends_addNodes hready hfresh hfree hids hns
  refine (yields_first hready ⟨start.addNodes ns, codeList⟩ reading writing hfresh hfree).imp ?_
  rintro r₁ g₁ ⟨hok, h₁⟩
  refine ⟨hok, (hext.yields_second reading' writing' h₁).imp ?_⟩
  rintro r twice ⟨⟨t, ht, rfl⟩, h⟩
  refine (Underway.yields hext.ready hext.fresh reading₀ writing₀
    (.start hext.ready hext.fresh hext.free)).imp ?_
  rintro r₀ once ⟨⟨t₀, ht₀, rfl⟩, h₀⟩
  -- the reports count the wanted sources, of which there is one table
  have hreport : t = t₀ := ht.unique ht₀
  exact ⟨⟨_, rfl⟩, by rw [hreport], builtTwice hready hext h h₀⟩

theorem arriving_parentData : Arriving true ⟨"i", "x"⟩ "list" twoCodes parentData where
  data := ⟨"x", rfl⟩
  notGeneric := by decide +kernel
  notClone := by decide +kernel
  plain _ := by decide +kernel
  new := by decide +kernel
  undrawn := not_future_of_short rfl (by decide +kernel)

theorem buildFromIds_twice_twoCodes :
    graph.Yields ((Backend.gremlin (.of 1 2) (.of 1 2)).buildFromIds true ⟨"i", "x"⟩ "list").run
      twoCodes fun r₁ g₁ => (∃ report, r₁ = .ok report) ∧
        graph.Yields ((Backend.gremlin (.of 2 1) (.of 2 1)).buildFromIds true ⟨"i", "x"⟩
          "list").run (g₁.addNodes [parentData]) fun r twice =>
            graph.Yields ((Backend.gremlin (.of 1 1) (.of 1 1)).buildFromIds true ⟨"i", "x"⟩
              "list").run (twoCodes.addNodes [parentData]) fun r₀ once =>
                (∃ report, r = .ok report) ∧ r = r₀ ∧
                  BuiltTwice ⟨"i", "x"⟩ "list" twoCodes (twoCodes.addNodes [parentData]) twice
                    once :=
  buildFromIds_twice (.of 1 2) (.of 1 2) (.of 2 1) (.of 2 1) (.of 1 1) (.of 1 1) true ⟨"i", "x"⟩
    "list" twoCodes [parentData] twoCodes_fresh twoCodes_distinct twoCodes_inside
    (label?_ne_of_ids (by decide +kernel)) twoCodes_unlinked (by decide +kernel)
    fun n hn => List.mem_singleton.1 hn ▸ arriving_parentData

/-- Data for a code that was cloned as a parent only comes too late for its flag. -/
theorem buildFromIds_twice_stale :
    twoCodes.Fresh ∧ twoCodes.DistinctCodes (NodeLabel.generic "list") ∧
    (∀ s t, twoCodes.Up s t → twoCodes.label? s = some (NodeLabel.generic "list") →
      twoCodes.label? t = some (NodeLabel.generic "list")) ∧
    (∀ id, twoCodes.label? id ≠ some (NodeLabel.hierarchy ⟨"i", "x"⟩)) ∧
    (∀ s t, ¬ twoCodes.Joined EdgeLabel.cloneOf s t) ∧
    Arriving true ⟨"i", "x"⟩ "list" twoCodes parentData ∧
    let build := ((Backend.gremlin (.of 1 1) (.of 1 1)).buildFromIds false ⟨"i", "x"⟩ "list").run
    (graph.run build ((graph.run build twoCodes).2.addNodes [parentData])).2.outline
        (NodeLabel.hierarchy ⟨"i", "x"⟩) ≠
      (graph.run build (twoCodes.addNodes [parentData])).2.outline
        (NodeLabel.hierarchy ⟨"i", "x"⟩) := by
  refine ⟨twoCodes_fresh, twoCodes_distinct, twoCodes_inside, label?_ne_of_ids (by decide +kernel),
    twoCodes_unlinked, arriving_parentData, fun h => ?_⟩
  have hflags := congrArg (fun o => (o.nodes (some "all")).map fun ps =>
    (ps.get? Property.hasData).bind Json.bool?) h
  exact absurd hflags (by decide +kernel)

end Graph
end InstanceHierarchy
