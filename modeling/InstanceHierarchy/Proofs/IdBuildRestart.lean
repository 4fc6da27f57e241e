import InstanceHierarchy.Proofs.IdBuildUnderway
import InstanceHierarchy.Proofs.Obeying

/-!
# Builds from ids that are started anew

A build from ids that is alone with its store may find a graph in which such builds have been under
way.  It leaves one wherever it is stopped, whatever calls have failed by then, and when it comes to
its end it leaves the hierarchy, and gives the report, of a build that began at the start.
-/

namespace InstanceHierarchy
namespace Graph

open Relation Environment

/-- The ids are those of all nodes of a hierarchy. -/
def AllNodes (key : HierarchyKey) (ids : TextSet) (g : Graph) : Prop :=
  ∀ id, id ∈ ids.toList ↔ g.label? id = some (NodeLabel.hierarchy key)

theorem AllNodes.rewrites {key : HierarchyKey} {ids : TextSet} {g g' : Graph}
    {F : Id → Properties → Properties} (h : AllNodes key ids g) (hrewrites : Rewrites g g' F) :
    AllNodes key ids g' := by
  intro id
  rw [hrewrites.label]
  exact h id

/-! ## The phases of a build on a store that obeys -/

section Phases

variable {σ : Type} {env : Environment σ} {view : σ → Graph} {mayFail : Prop} {P : Plan}
  {data : Id → Bool} {old : Id → Prop} {key : HierarchyKey} {placing : Bool} {m : Milestones}
  {counted : String → Prop} (hobeys : Obeys env view mayFail)
  (hready : P.Ready {NodeLabel.hierarchy key}) (hfresh : P.start.Fresh)
  (reading writing : BatchScheduler)

/-- The build has the store to itself, and at every moment it is under way. -/
abbrev aloneUnderway (view : σ → Graph) (P : Plan) (data : Id → Bool) (old : Id → Prop)
    (key : HierarchyKey) (placing : Bool) : Sharing σ :=
  .alone fun s => Underway P data old key placing (fun _ => False) .start (view s)

include hobeys

/-- Batches lead from milestones to others if each of them leads on between. -/
theorem copes_batches {ids : TextSet} {method : Method} (hm : Sends method)
    {mutation : List Id → Mutation} {m' : Milestones} (hinj : Function.Injective mutation)
    (stage : (Id → Prop) → Milestones) (hstart : stage (fun _ => False) = m)
    (hend : stage (· ∈ ids.toList) = m')
    (hstep : ∀ part g batch, Underway P data old key placing (fun _ => False) (stage part) g →
      (∀ s ∈ batch, s ∈ ids.toList) → Underway P data old key placing (fun _ => False)
        (stage fun s => part s ∨ s ∈ batch) (g.mutate (mutation batch)).2) :
    Copes env (aloneUnderway view P data old key placing)
      (fun s => Underway P data old key placing (fun _ => False) m (view s))
      (Backend.mutateIds writing method ids mutation)
      (fun _ s => Underway P data old key placing (fun _ => False) m' (view s))
      fun _ => mayFail := by
  subst hstart hend
  exact hobeys.mutateIds hm hinj
    (fun part g => Underway P data old key placing (fun _ => False) (stage part) g) hstep
    fun part g hg => hg.begun

/-- The codes with data are those at the start. -/
theorem copes_dataCodes (r : Reader) :
    Copes env (aloneUnderway view P data old key placing)
      (fun s => Underway P data old key placing counted m (view s)) (r.dataCodes key)
      (fun codes s => codes = P.start.dataCodes (NodeLabel.data key) ∧
        Underway P data old key placing counted m (view s)) fun _ => mayFail := by
  refine hobeys.ask (m := .strings) (q := .dataCodes key) (fun codes g =>
    codes = P.start.dataCodes (NodeLabel.data key) ∧ Underway P data old key placing counted m g)
    fun g hg => ?_
  have hsame : g.dataCodes (NodeLabel.data key) = P.start.dataCodes (NodeLabel.data key) := by
    unfold Graph.dataCodes
    rw [hg.site.preserves.nodesWithLabel fun h => hierarchy_ne_data key h.symm]
  exact ⟨_, congrArg some hsame, rfl, hg⟩

/-- When all wanted sources are cloned, there are as many nodes as they have codes. -/
theorem copes_countNodes (hdistinct : P.start.DistinctCodes (NodeLabel.generic P.codeList))
    (r : Reader) (hcloned : m.cloned = P.Wanted key) :
    Copes env (aloneUnderway view P data old key placing)
      (fun s => Underway P data old key placing counted m (view s)) (r.countNodes key)
      (fun n s =>
        n = (Set.ncard { c | ∃ n ∈ P.sources, P.Wanted key n.id ∧ n.cloneCode = c } : Nat) ∧
          Underway P data old key placing counted m (view s)) fun _ => mayFail := by
  refine hobeys.ask (m := .count) (q := .countNodes key) (fun n g =>
    n = (Set.ncard { c | ∃ n ∈ P.sources, P.Wanted key n.id ∧ n.cloneCode = c } : Nat) ∧
      Underway P data old key placing counted m g) fun g hg => ⟨_, rfl, ?_, hg⟩
  obtain ⟨pic, hpic, hdraft⟩ := hg.shows
  have hcodes : { c | (pic.properties c).isSome } =
      { c | ∃ n ∈ P.sources, P.Wanted key n.id ∧ n.cloneCode = c } :=
    Set.ext (hdraft.isSome_iff hdistinct hcloned)
  rw [← hcodes, length_idsWithLabel hpic (hg.site.sound.tidy _ rfl)]

include hready hfresh

/-- Each source is linked to its code by a statement of its own. -/
theorem copes_linkCodes {codes : CodesById} {done : Id → Prop} (hplacing : placing = true)
    (hholds : P.Holds (P.Wanted key) codes) (hdone : ∀ s, done s ↔ m.coded s ∨ P.Wanted key s) :
    Copes env (aloneUnderway view P data old key placing)
      (fun s => Underway P data old key placing (fun _ => False) m (view s))
      ((Backend.gremlin reading writing).linkCodes P.codeList codes)
      (fun _ s => Underway P data old key placing (fun _ => False) { m with coded := done }
        (view s)) fun _ => mayFail := by
  unfold Backend.linkCodes
  refine hobeys.sendEach (Or.inl rfl) (Mutation.linkCode_injective P.codeList)
    (fun es g => Underway P data old key placing (fun _ => False)
      { m with coded := fun s => m.coded s ∨ ∃ e ∈ es, s = e.1 } g)
    (fun g hg => by simpa using hg) (fun es g e hg he => ?_) (fun es g hg => hg.begun)
    fun es g hg hperm => ?_
  · obtain ⟨hwanted, hcode⟩ := hholds.entry he
    obtain ⟨n, hn, hid⟩ := hwanted.source hready
    rw [← hid, Plan.code_of_mem hn] at hcode
    rw [← hid] at hwanted ⊢
    rw [hcode]
    refine hg.linkCode hready hfresh hplacing hn hwanted fun s => ?_
    simp [hid, or_and_right, exists_or, or_assoc]
  · have hall : (fun s => m.coded s ∨ ∃ e ∈ es, s = e.1) = done := by
      funext s
      refine propext (Iff.trans (or_congr_right ?_) (hdone s).symm)
      rw [← hholds.exists_entry]
      exact exists_congr fun e => and_congr_left fun _ => hperm.mem_iff
    rw [← hall]
    exact hg

omit hready hfresh in
/-- The build asks for the ids of its nodes. -/
theorem copes_nodeIds :
    Copes env (aloneUnderway view P data old key placing)
      (fun s => Underway P data old key placing (fun _ => False) m (view s))
      ((Backend.gremlin reading writing).nodeIds key)
      (fun ids s => AllNodes key ids (view s) ∧
        Underway P data old key placing (fun _ => False) m (view s)) fun _ => mayFail := by
  refine Copes.bind (Sharing.stable_alone _ _) (hobeys.ask (m := .strings) (q := .nodeIds key)
    (fun ids g => AllNodes key (TextSet.ofList ids) g ∧
      Underway P data old key placing (fun _ => False) m g) fun g hg => ⟨_, rfl, ?_, hg⟩)
    fun ids => Copes.pure (Sharing.stable_alone _ _) fun _ hs => hs
  exact fun id => TextSet.mem_ofList.trans mem_idsWithLabel

/-- The children of all nodes are counted. -/
theorem copes_countChildrenOf {ids : TextSet} :
    Copes env (aloneUnderway view P data old key placing)
      (fun s => AllNodes key ids (view s) ∧
        Underway P data old key placing (fun _ => False) m (view s))
      ((Backend.gremlin reading writing).countChildrenOf ids)
      (fun _ s => Underway P data old key placing (fun _ => True) m (view s)) fun _ => mayFail := by
  refine (hobeys.mutateIds (Or.inl rfl) Mutation.countChildrenOf_injective (fun part g =>
    AllNodes key ids g ∧ Underway P data old key placing
      (fun c => ∃ id, part id ∧ g.Coded (NodeLabel.hierarchy key) c id) m g)
    (fun part g batch hg hbatch => ?_) fun part g hg => hg.2.begun).weaken (fun s hs => ?_)
    (fun _ s hs => ?_) fun _ => id
  · obtain ⟨hall, hg⟩ := hg
    have hlabels : ∀ id ∈ batch, g.label? id = some (NodeLabel.hierarchy key) :=
      fun id hid => (hall id).1 (hbatch id hid)
    have hrewrites := countChildren_rewrites g batch
    refine ⟨hall.rewrites hrewrites,
      (hg.countChildrenOf hready hfresh hlabels).recount fun c id _ => ?_⟩
    show _ ↔ ∃ id, (part id ∨ id ∈ batch) ∧ (g.countChildren batch).Coded _ c id
    simp only [hrewrites.coded, or_and_right, exists_or]
  · exact ⟨hs.1, hs.2.recount fun c id _ => by simp⟩
  · obtain ⟨hall, hs⟩ := hs
    exact hs.recount fun c id hid => iff_of_true ⟨id, (hall id).2 hid.label, hid⟩ trivial

/-- The phases of a build that finds such builds under way. -/
theorem furthers_obeying :
    Furthers env (aloneUnderway view P data old key placing) (fun _ => mayFail) P data old key
      placing (.gremlin reading writing)
      fun counted m s => Underway P data old key placing counted m (view s) where
  stable _ _ := Sharing.stable_alone _ _
  stableFail := Sharing.stable_alone _ _
  dataCodes := copes_dataCodes hobeys _
  genericIds := by
    refine (hobeys.resolve hready genericIds_injective (fun batch s hs => hs.source)
      (fun g batch hsite => hsite.answer_genericIds hready batch)
      fun g hg => Underway.site hg).weaken (fun _ => id) ?_ fun _ => id
    rintro t s ⟨hholds, hs⟩
    exact ⟨hholds.congr fun s => Plan.exists_batch, hs⟩
  ancestryIds := by
    refine (hobeys.resolve hready ancestryIds_injective (fun batch s hs => hs.source hready)
      (fun g batch hsite => hsite.answer_ancestryIds hready batch)
      fun g hg => Underway.site hg).weaken (fun _ => id) ?_ fun _ => id
    rintro t s ⟨hholds, hs⟩
    exact ⟨hholds.congr fun s => Plan.exists_batch_above, hs⟩
  cloneSources {m _ _} hasData hids hrelated hcut hdone := by
    refine copes_batches hobeys writing (Or.inl rfl)
      (Mutation.cloneSources_injective key P.codeList hasData)
      (fun part => { m with cloned := fun s => m.cloned s ∨ part s }) (by simp)
      (by simp only [← hdone]) fun part g batch hg hbatch => ?_
    have hbatch' := fun s hs => hids s (hbatch s hs)
    have hnext := hg.cloneSources hready hfresh hbatch' hrelated hcut fun s => Iff.rfl
    simpa only [or_assoc] using hnext
  relateSources {m _ _} hids hcut hdone := by
    refine copes_batches hobeys writing (Or.inr rfl) (Mutation.relateSources_injective key)
      (fun part => { m with related := fun s => m.related s ∨ part s }) (by simp)
      (by simp only [← hdone]) fun part g batch hg hbatch => ?_
    have hbatch' := fun s hs => hids s (hbatch s hs)
    have hnext := hg.relateSources hready hfresh hbatch' hcut fun s => Iff.rfl
    simpa only [or_assoc] using hnext
  linkCodes hplacing hholds hdone :=
    copes_linkCodes hobeys hready hfresh reading writing hplacing hholds hdone
  copyOrder {m _ _} hplacing hids hcut hdone := by
    refine copes_batches hobeys writing (Or.inl rfl) (Mutation.copyOrder_injective P.codeList)
      (fun part => { m with placed := fun s => m.placed s ∨ part s }) (by simp)
      (by simp only [← hdone]) fun part g batch hg hbatch => ?_
    have hbatch' := fun s hs => hids s (hbatch s hs)
    have hnext := hg.copyOrder hready hfresh hplacing hbatch' hcut fun s => Iff.rfl
    simpa only [or_assoc] using hnext
  unlinkSources {m _ _} hdone := by
    refine copes_batches hobeys writing (Or.inl rfl) Mutation.unlinkSources_injective
      (fun part => { m with cut := fun s => m.cut s ∨ part s }) (by simp)
      (by simp only [← hdone]) fun part g batch hg _ => ?_
    have hnext := hg.unlinkSources batch hready hfresh fun s => Iff.rfl
    simpa only [or_assoc] using hnext
  countAll _ := (copes_nodeIds hobeys reading writing).bind (Sharing.stable_alone _ _) fun _ =>
    copes_countChildrenOf hobeys hready hfresh reading writing
  countNodes hcloned := copes_countNodes hobeys hready.distinct _ hcloned

end Phases

/-! ## Whole builds -/

variable {P : Plan} {data : Id → Bool} {old : Id → Prop} {key : HierarchyKey} {placing : Bool}

/-- A build on a store that obeys, from a graph in which such builds have been under way. -/
theorem copes_buildFromIds {σ : Type} {env : Environment σ} {view : σ → Graph} {mayFail : Prop}
    (hobeys : Obeys env view mayFail) (hready : P.Ready {NodeLabel.hierarchy key})
    (hfresh : P.start.Fresh) (reading writing : BatchScheduler)
    (hflag : ∀ s, P.Wanted key s →
      old s ∨ (data s = true ↔ P.Carries (P.start.dataCodes (NodeLabel.data key)) s)) :
    Copes env (aloneUnderway view P data old key placing)
      (fun s => Underway P data old key placing (fun _ => False) .start (view s))
      ((Backend.gremlin reading writing).buildFromIds placing key P.codeList)
      (fun report s => (∃ t, P.Holds (P.Wanted key) t ∧ report = P.report key t.size) ∧
        Underway P data old key placing (fun _ => True) (.finished (P.Wanted key) placing) (view s))
      fun _ => mayFail :=
  (furthers_obeying hobeys hready hfresh reading writing).buildFromIds hflag

/-- When nothing fails, a build comes to its end. -/
theorem Underway.finishes {g : Graph} (hready : P.Ready {NodeLabel.hierarchy key})
    (hfresh : P.start.Fresh) (reading writing : BatchScheduler)
    (hflag : ∀ s, P.Wanted key s →
      old s ∨ (data s = true ↔ P.Carries (P.start.dataCodes (NodeLabel.data key)) s))
    (h : Underway P data old key placing (fun _ => False) .start g) :
    graph.Yields ((Backend.gremlin reading writing).buildFromIds placing key P.codeList).run g
      fun r g' => (∃ t, P.Holds (P.Wanted key) t ∧ r = .ok (P.report key t.size)) ∧
        Underway P data old key placing (fun _ => True) (.finished (P.Wanted key) placing) g' := by
  refine (copes_buildFromIds obeys_graph hready hfresh reading writing hflag g h).yields.imp ?_
  rintro (e | report) g' hend
  · exact hend.elim
  · obtain ⟨⟨t, ht, rfl⟩, hg'⟩ := hend
    exact ⟨⟨t, ht, rfl⟩, hg'⟩

/-- Where no sources are old, it leaves the finished hierarchy. -/
theorem Underway.yields {g : Graph} (hready : P.Ready {NodeLabel.hierarchy key})
    (hfresh : P.start.Fresh) (reading writing : BatchScheduler)
    (h : Underway P (P.flags (P.start.dataCodes (NodeLabel.data key))) (fun _ => False) key placing
      (fun _ => False) .start g) :
    graph.Yields ((Backend.gremlin reading writing).buildFromIds placing key P.codeList).run g
      fun r g' => (∃ t, P.Holds (P.Wanted key) t ∧ r = .ok (P.report key t.size)) ∧
        Settled P.start (NodeLabel.hierarchy key)
          (P.outcome (P.start.dataCodes (NodeLabel.data key)) placing)
          (Underway.CodeJoined P key placing) g' :=
  (h.finishes hready hfresh reading writing fun s _ => Or.inr (Plan.flags_iff s)).imp
    fun _ _ hend => ⟨hend.1, hend.2.settled⟩

/-- What builds of a hierarchy from ids have made of a graph, when each of them went as far as it
got with a store in trouble. -/
inductive Attempted (placing : Bool) (key : HierarchyKey) (codeList : Id) (start : Graph) :
    Graph → Prop where
  | start : Attempted placing key codeList start start
  /-- A build was cut off after some of its moves, or came to its end or to a failure. -/
  | attempt {g : Graph} {rest : Program (Except StoreError BuildReport)} {s : TroubledStore}
      (reading writing : BatchScheduler) (t : Trouble)
      (h : Attempted placing key codeList start g)
      (hmoves : ReflTransGen t.environment.Solo
        (((Backend.gremlin reading writing).buildFromIds placing key codeList).run, ⟨g, []⟩)
        (rest, s)) : Attempted placing key codeList start s.graph

theorem Attempted.underway {g : Graph} (h : Attempted placing key P.codeList P.start g)
    (hready : P.Ready {NodeLabel.hierarchy key}) (hfresh : P.start.Fresh)
    (hfree : ∀ id, P.start.label? id ≠ some (NodeLabel.hierarchy key)) :
    Underway P (P.flags (P.start.dataCodes (NodeLabel.data key))) (fun _ => False) key placing
      (fun _ => False) .start g := by
  induction h with
  | start => exact .start hready hfresh hfree
  | attempt reading writing t _ hmoves ih =>
      exact (copes_buildFromIds (obeys_trouble t) hready hfresh reading writing
        (fun s _ => Or.inr (Plan.flags_iff s)) _ ih).kept ih hmoves

/-- After any number of builds that were cut off, with whatever calls failing, one build that meets
no failure succeeds, gives the report of a single build on the starting graph, and leaves the graph
that a single build leaves, but for drawn ids and the order of added edges. -/
theorem buildFromIds_after_attempts (reading writing reading' writing' : BatchScheduler)
    (placing : Bool) (key : HierarchyKey) (codeList : Id) (start g : Graph) (hfresh : start.Fresh)
    (hcodes : start.DistinctCodes (NodeLabel.generic codeList))
    (hinside : ∀ s t, start.Up s t → start.label? s = some (NodeLabel.generic codeList) →
      start.label? t = some (NodeLabel.generic codeList))
    (hfree : ∀ id, start.label? id ≠ some (NodeLabel.hierarchy key))
    (hunlinked : ∀ s t, ¬ start.Joined EdgeLabel.cloneOf s t)
    (hattempted : Attempted placing key codeList start g) :
    graph.Yields ((Backend.gremlin reading' writing').buildFromIds placing key codeList).run start
      fun r₀ g₀ =>
        graph.Yields ((Backend.gremlin reading writing).buildFromIds placing key codeList).run g
          fun r g' => (∃ report, r = .ok report) ∧ r = r₀ ∧ SameButIds start g₀ g' := by
  have hready : Plan.Ready ⟨start, codeList⟩ {NodeLabel.hierarchy key} :=
    ⟨hcodes, hinside, hunlinked, fun K hK => ⟨key, hK⟩⟩
  have hsingle : Attempted placing key codeList start start := .start
  refine ((hsingle.underway hready hfresh hfree).yields hready hfresh reading' writing').imp ?_
  rintro r₀ g₀ ⟨⟨t₀, ht₀, rfl⟩, hsettled₀⟩
  refine ((hattempted.underway hready hfresh hfree).yields hready hfresh reading writing).imp ?_
  rintro r g' ⟨⟨t, ht, rfl⟩, hsettled⟩
  -- the report counts the wanted sources, of which there is one table
  have hreport : t = t₀ := ht.unique ht₀
  exact ⟨⟨_, rfl⟩, by rw [hreport], hsettled₀.sameButIds hsettled hfresh⟩

/-- The seventh call is refused, which is to repeat the parent edge of the second source. -/
def seventhRefused : Trouble where
  fate n := if n = 6 then .refused (.transient "connection reset") else .carriedOut
  late _ := false

/-- The two nodes after a build that gave places and was stopped by a refusal. -/
def twoCodesAttempted : Graph :=
  (seventhRefused.environment.run ((Backend.gremlin (.of 1 2) (.of 1 2)).buildFromIds true
    ⟨"i", "x"⟩ "list").run ⟨twoCodes, []⟩).2.graph

theorem attempted_twoCodes : Attempted true ⟨"i", "x"⟩ "list" twoCodes twoCodesAttempted :=
  .attempt (.of 1 2) (.of 1 2) seventhRefused .start (solo_run _ _)

theorem buildFromIds_after_attempts_twoCodes :
    graph.Yields ((Backend.gremlin (.of 1 2) (.of 1 2)).buildFromIds true ⟨"i", "x"⟩ "list").run
      twoCodes fun r₀ g₀ =>
        graph.Yields ((Backend.gremlin (.of 2 1) (.of 2 1)).buildFromIds true ⟨"i", "x"⟩ "list").run
          twoCodesAttempted fun r g' =>
            (∃ report, r = .ok report) ∧ r = r₀ ∧ SameButIds twoCodes g₀ g' :=
  buildFromIds_after_attempts (.of 2 1) (.of 2 1) (.of 1 2) (.of 1 2) true ⟨"i", "x"⟩ "list"
    twoCodes twoCodesAttempted twoCodes_fresh twoCodes_distinct twoCodes_inside
    (label?_ne_of_ids (by decide +kernel)) twoCodes_unlinked attempted_twoCodes

-- the build that was stopped has left links behind, and no parent edge between its clones
example : (twoCodesAttempted.edges.map (·.label)) =
    [EdgeLabel.hasParent, EdgeLabel.cloneOf, EdgeLabel.cloneOf] := by
  decide +kernel

end Graph
end InstanceHierarchy
