import InstanceHierarchy.Proofs.BatchedItems
import InstanceHierarchy.Proofs.IdBuildPhases

/-!
# Builds from ids

A build from ids finds the sources that are wanted, and works on sets of them in batches.  Each step
takes it to its next milestones, whatever the batches and the order in which they take effect.
-/

namespace InstanceHierarchy

open Relation Environment

/-! ## Batches -/

/-- Statements that are sent for different items lead, one after another in any order, to the stage at
which all items are done. -/
theorem achieves_sendEach {ι : Type} {S : Sharing ScriptedStore} {scheduler : BatchScheduler}
    {method : Method} {items : List ι} {statement : ι → Statement}
    (hinj : Function.Injective statement) {pre post : ScriptedStore → Prop}
    (stage : List ι → ScriptedStore → Prop) (hstart : ∀ st, pre st → stage [] st)
    (hstable : ∀ done, S.Stable (stage done)) (hpost : S.Stable post)
    (hplain : ∀ done st, stage done st → st.Plain)
    (hcall : ∀ done st i, stage done st → i ∈ items →
      Achieves.CallDoes ScriptedStore.environment S method (statement i)
        (fun _ => stage (done ++ [i])) st)
    (hend : ∀ done st, stage done st → done.Perm items → post st) :
    Achieves ScriptedStore.environment S pre
      (StoreM.sendAll scheduler method (items.map statement)) fun _ => post := by
  refine Achieves.iff_copes.2 (Copes.sendEach hinj stage hstart hstable Achieves.stable_false hpost
    Achieves.stable_false (fun done st hst hlate => ?_)
    (fun done st i hst hi => (hcall done st i hst hi).ends) (fun _ _ h => h.elim) hend fun _ => id)
  rw [(hplain done st hst).intime] at hlate
  cases hlate

/-- Mutations for batches of ids lead to the stage at which all ids are done. -/
theorem achieves_mutateIds {S : Sharing ScriptedStore} {writing : BatchScheduler} {method : Method}
    {ids : TextSet} {mutation : List Id → Mutation} (hinj : Function.Injective mutation)
    (stage : (Id → Prop) → ScriptedStore → Prop) (hstable : ∀ done, S.Stable (stage done))
    (hplain : ∀ done st, stage done st → st.Plain)
    (hcall : ∀ done st batch, stage done st → (∀ s ∈ batch, s ∈ ids.toList) →
      Achieves.CallDoes ScriptedStore.environment S method (.of .gremlin (.mutation (mutation batch)))
        (fun _ => stage fun s => done s ∨ s ∈ batch) st) :
    Achieves ScriptedStore.environment S (stage fun _ => False)
      (Backend.mutateIds writing method ids mutation) fun _ => stage (· ∈ ids.toList) := by
  refine Achieves.iff_copes.2 (Copes.mutateIds hinj stage hstable Achieves.stable_false
    Achieves.stable_false (fun done st hst hlate => ?_)
    (fun done st batch hst hbatch => (hcall done st batch hst hbatch).ends) (fun _ _ h => h.elim)
    fun _ => id)
  rw [(hplain done st hst).intime] at hlate
  cases hlate

/-! ## The steps of a build -/

variable {L : Set String} {P : Plan} {data : Id → Bool} {key : HierarchyKey} {m : Milestones}
  (hready : P.Ready L) (hL : NodeLabel.hierarchy key ∈ L) (reading writing : BatchScheduler)

theorem foreign_of_key {K : String} (hK : K ≠ NodeLabel.hierarchy key) (codeList : Id)
    (ids : List Id) (hasData : Bool) :
    Operation.Foreign K (.mutation (.cloneSources key codeList ids hasData)) := by
  intro key' codeList' ids' hasData' h
  cases h
  exact hK.symm

include hready

/-- Batches lead from milestones to others if each of them leads on between. -/
theorem achieves_batches {ids : TextSet} {method : Method} {mutation : List Id → Mutation}
    {m' : Milestones} (hinj : Function.Injective mutation) (stage : (Id → Prop) → Milestones)
    (hstart : stage (fun _ => False) = m) (hend : stage (· ∈ ids.toList) = m')
    (hcall : ∀ part st batch,
      (stage part).At L P data (NodeLabel.hierarchy key) (fun _ => False) st →
      (∀ s ∈ batch, s ∈ ids.toList) →
      Achieves.CallDoes ScriptedStore.environment (company L P (NodeLabel.hierarchy key)) method
        (.of .gremlin (.mutation (mutation batch)))
        (fun _ => (stage fun s => part s ∨ s ∈ batch).At L P data (NodeLabel.hierarchy key)
          fun _ => False) st) :
    Achieves ScriptedStore.environment (company L P (NodeLabel.hierarchy key))
      (m.At L P data (NodeLabel.hierarchy key) fun _ => False)
      (Backend.mutateIds writing method ids mutation)
      fun _ => m'.At L P data (NodeLabel.hierarchy key) fun _ => False := by
  subst hstart hend
  exact achieves_mutateIds hinj
    (fun part => (stage part).At L P data (NodeLabel.hierarchy key) fun _ => False)
    (fun part => Milestones.stable_at hready) (fun part st hst => hst.plain) hcall

include hL

theorem achieves_cloneSources {ids : TextSet} {done : Id → Prop} (hasData : Bool)
    (hids : ∀ s ∈ ids.toList, (∃ n ∈ P.sources, n.id = s) ∧ data s = hasData)
    (hrelated : ∀ s, ¬ m.related s) (hcut : ∀ s, ¬ m.cut s)
    (hdone : ∀ s, done s ↔ m.cloned s ∨ s ∈ ids.toList) :
    Achieves ScriptedStore.environment (company L P (NodeLabel.hierarchy key))
      (m.At L P data (NodeLabel.hierarchy key) fun _ => False)
      ((Backend.gremlin reading writing).cloneSources key P.codeList ids hasData)
      fun _ => { m with cloned := done }.At L P data
        (NodeLabel.hierarchy key) fun _ => False := by
  refine achieves_batches hready writing (Mutation.cloneSources_injective key P.codeList hasData)
    (fun part => { m with cloned := fun s => m.cloned s ∨ part s }) (by simp)
    (by simp only [← hdone]) fun part st batch hst hbatch => ?_
  have hadvances := Graph.advances_cloneSources hready hst.site hL hasData
    fun s hs => (hids s (hbatch s hs)).1
  refine hst.mutate hready hL (Or.inl rfl) hadvances
    (fun K hK => foreign_of_key hK P.codeList batch hasData) ?_ ?_
  · intro key' codeList' ids' hasData' h _
    cases h
    exact ⟨rfl, fun s hs => hids s (hbatch s hs)⟩
  · exact hst.holds.cloneSources P.codeList hasData hadvances.codes hrelated hcut
      fun s => or_assoc.symm

theorem achieves_relateSources {ids : TextSet} {done : Id → Prop}
    (hids : ∀ s ∈ ids.toList, (∃ n ∈ P.sources, n.id = s) ∧ m.cloned s) (hcut : ∀ s, ¬ m.cut s)
    (hdone : ∀ s, done s ↔ m.related s ∨ s ∈ ids.toList) :
    Achieves ScriptedStore.environment (company L P (NodeLabel.hierarchy key))
      (m.At L P data (NodeLabel.hierarchy key) fun _ => False)
      ((Backend.gremlin reading writing).relateSources key ids)
      fun _ => { m with related := done }.At L P data
        (NodeLabel.hierarchy key) fun _ => False := by
  refine achieves_batches hready writing (Mutation.relateSources_injective key)
    (fun part => { m with related := fun s => m.related s ∨ part s }) (by simp)
    (by simp only [← hdone]) fun part st batch hst hbatch => ?_
  have hadvances := Graph.advances_relateSources hready hst.site hL
    fun s hs => (hids s (hbatch s hs)).1
  refine hst.mutateLinks hready hL (Or.inr rfl) hadvances (by simp) ?_
  exact hst.holds.relateSources hadvances.codes (fun s hs => (hids s (hbatch s hs)).2) hcut
    fun s => or_assoc.symm

theorem achieves_copyOrder {ids : TextSet} {done : Id → Prop}
    (hids : ∀ s ∈ ids.toList, (∃ n ∈ P.sources, n.id = s) ∧ m.cloned s ∧ m.coded s)
    (hcut : ∀ s, ¬ m.cut s) (hdone : ∀ s, done s ↔ m.placed s ∨ s ∈ ids.toList) :
    Achieves ScriptedStore.environment (company L P (NodeLabel.hierarchy key))
      (m.At L P data (NodeLabel.hierarchy key) fun _ => False)
      ((Backend.gremlin reading writing).copyOrder P.codeList ids)
      fun _ => { m with placed := done }.At L P data
        (NodeLabel.hierarchy key) fun _ => False := by
  refine achieves_batches hready writing (Mutation.copyOrder_injective P.codeList)
    (fun part => { m with placed := fun s => m.placed s ∨ part s }) (by simp)
    (by simp only [← hdone]) fun part st batch hst hbatch => ?_
  have hadvances := Graph.advances_copyOrder hready hst.site
    (fun s hs => (hids s (hbatch s hs)).1)
    fun s hs => hst.holds.coded s (hids s (hbatch s hs)).2.2
  refine hst.mutateLinks hready hL (Or.inl rfl) hadvances (by simp) ?_
  exact hst.holds.copyOrder P.codeList hadvances.codes
    (fun s hs => (hids s (hbatch s hs)).2.1) hcut fun s => or_assoc.symm

theorem achieves_unlinkSources {ids : TextSet} {done : Id → Prop}
    (hdone : ∀ s, done s ↔ m.cut s ∨ s ∈ ids.toList) :
    Achieves ScriptedStore.environment (company L P (NodeLabel.hierarchy key))
      (m.At L P data (NodeLabel.hierarchy key) fun _ => False)
      ((Backend.gremlin reading writing).unlinkSources ids)
      fun _ => { m with cut := done }.At L P data
        (NodeLabel.hierarchy key) fun _ => False := by
  refine achieves_batches hready writing Mutation.unlinkSources_injective
    (fun part => { m with cut := fun s => m.cut s ∨ part s }) (by simp)
    (by simp only [← hdone]) fun part st batch hst _ => ?_
  have hadvances := Graph.advances_unlinkSources hst.site batch
  refine hst.mutateLinks hready hL (Or.inl rfl) hadvances (by simp) ?_
  exact hst.holds.unlinkSources hadvances.codes fun s => or_assoc.symm

/-- Each source is linked to its code by a statement of its own. -/
theorem achieves_linkCodes {codes : CodesById} {wanted done : Id → Prop}
    (hholds : P.Holds wanted codes)
    (hwanted : ∀ s, wanted s → ∃ n ∈ P.sources, n.id = s)
    (hdone : ∀ s, done s ↔ m.coded s ∨ wanted s) :
    Achieves ScriptedStore.environment (company L P (NodeLabel.hierarchy key))
      (m.At L P data (NodeLabel.hierarchy key) fun _ => False)
      ((Backend.gremlin reading writing).linkCodes P.codeList codes)
      fun _ => { m with coded := done }.At L P data
        (NodeLabel.hierarchy key) fun _ => False := by
  unfold Backend.linkCodes
  have hinj := Mutation.linkCode_injective P.codeList
  refine achieves_sendEach (statement_injective hinj) (fun es =>
      { m with coded := fun s => m.coded s ∨ ∃ e ∈ es, s = e.1 }.At L P data
        (NodeLabel.hierarchy key) fun _ => False)
    (fun st hst => by simpa using hst) (fun es => Milestones.stable_at hready)
    (Milestones.stable_at hready) (fun es st hst => hst.plain) (fun es st e hst he => ?_)
    fun es st hst hperm => ?_
  · obtain ⟨hw, hcode⟩ := hholds.entry he
    obtain ⟨n, hn, hid⟩ := hwanted e.1 hw
    rw [← hid, Plan.code_of_mem hn] at hcode
    rw [← hid, hcode]
    obtain ⟨hadvances, hlinked⟩ := Graph.advances_linkCode hready hst.site hn
    have hmore : (fun s => m.coded s ∨ ∃ e' ∈ es ++ [e], s = e'.1) =
        fun s => (m.coded s ∨ ∃ e' ∈ es, s = e'.1) ∨ s = n.id := by
      funext s
      simp [hid, or_and_right, exists_or, or_assoc]
    rw [hmore]
    exact hst.mutateLinks hready hL (Or.inl rfl) hadvances (by simp)
      (hst.holds.linkCode P.codeList n.id n.cloneCode hadvances.codes hlinked fun s => Iff.rfl)
  · have hall : (fun s => m.coded s ∨ ∃ e ∈ es, s = e.1) = done := by
      funext s
      refine propext (Iff.trans (or_congr_right ?_) (hdone s).symm)
      rw [← hholds.exists_entry]
      exact exists_congr fun e => and_congr_left fun _ => hperm.mem_iff
    rw [← hall]
    exact hst

/-! ## Counting -/

/-- The milestones are reached, and the ids are those of nodes with certain codes. -/
def Numbered (L : Set String) (P : Plan) (label : String) (m : Milestones) (ids : TextSet)
    (codeOf : Id → String) (g : Graph) (log : List Received) : Prop :=
  m.Reached L P label g log ∧ ∀ id ∈ ids.toList, g.Coded label (codeOf id) id

omit hready hL in
theorem lasting_numbered {label : String} {ids : TextSet} {codeOf : Id → String} :
    Lasting L P label (Numbered L P label m ids codeOf) := by
  intro g g' log e hcompany hforeign hkept hcodes h
  exact ⟨Milestones.lasting_reached g g' log e hcompany hforeign hkept hcodes h.1,
    fun id hid => hkept _ _ _ (h.2 id hid)⟩

/-- The milestones are reached, and the ids are those of all clones of the build. -/
def Known (L : Set String) (P : Plan) (data : Id → Bool) (label : String) (m : Milestones)
    (ids : TextSet) (st : ScriptedStore) : Prop :=
  ∃ codeOf : Id → String,
    (∀ n ∈ P.sources, m.cloned n.id → ∃ id ∈ ids.toList, codeOf id = n.cloneCode) ∧
      Standing L P data label (fun _ => False) (Numbered L P label m ids codeOf) st

omit hL in
theorem stable_known {label : String} {ids : TextSet} :
    (company L P label).Stable (Known L P data label m ids) := by
  intro st st' hst hrely
  obtain ⟨codeOf, hfound, hst⟩ := hst
  exact ⟨codeOf, hfound, Standing.stable hready lasting_numbered st st' hst hrely⟩

omit hready hL in
/-- The nodes of a hierarchy have codes. -/
theorem exists_codeOf {label : String} {g : Graph} (ht : Graph.Tidy L label g) :
    ∃ codeOf : Id → String, ∀ id, g.label? id = some label → g.Coded label (codeOf id) id := by
  have hcode : ∀ id, ∃ c, g.label? id = some label → g.Coded label c id := by
    intro id
    by_cases hid : g.label? id = some label
    · obtain ⟨c, hc⟩ := ht.exists_code hid
      exact ⟨c, fun _ => hc⟩
    · exact ⟨"", fun h => absurd h hid⟩
  exact Classical.axiomOfChoice hcode

omit hL in
/-- The clone of a source that the build has cloned is there. -/
theorem exists_clone {label : String} {st : ScriptedStore}
    (hst : m.At L P data label (fun _ => False) st) {n : Node} (hn : n ∈ P.sources)
    (hcloned : m.cloned n.id) : ∃ id, st.graph.Coded label n.cloneCode id := by
  have hshown : (((P.sketch data (.ofLog label st.log)).count fun _ => False).properties
      n.cloneCode).isSome := by
    rw [Picture.isSome_count, Plan.isSome_sketch hready.distinct]
    exact ⟨n, hn, (hst.holds.cloned n.id).2 hcloned, rfl⟩
  obtain ⟨ps, hps⟩ := Option.isSome_iff_exists.1 hshown
  obtain ⟨id, -, hid⟩ := hst.shows.exists_coded hps
  exact ⟨id, hid⟩

/-- The build asks for the ids of its nodes. -/
theorem achieves_nodeIds :
    Achieves ScriptedStore.environment (company L P (NodeLabel.hierarchy key))
      (m.At L P data (NodeLabel.hierarchy key) fun _ => False)
      ((Backend.gremlin reading writing).nodeIds key)
      fun ids => Known L P data (NodeLabel.hierarchy key) m ids := by
  have hask : Achieves ScriptedStore.environment (company L P (NodeLabel.hierarchy key))
      (m.At L P data (NodeLabel.hierarchy key) fun _ => False)
      (StoreM.call .strings (.of .gremlin (.query (.nodeIds key))))
      fun ids => Known L P data (NodeLabel.hierarchy key) m (TextSet.ofList ids) := by
    refine Achieves.call (Milestones.stable_at hready) (fun ids => stable_known hready)
      fun st hst => ?_
    obtain ⟨codeOf, hcodeOf⟩ := exists_codeOf (hst.site.sound.tidy _ hL)
    -- the ids are those of all nodes with the label, the clones among them
    have hmem : ∀ id, id ∈ (TextSet.ofList
        (st.graph.idsWithLabel (NodeLabel.hierarchy key))).toList ↔
          st.graph.label? id = some (NodeLabel.hierarchy key) :=
      fun id => TextSet.mem_ofList.trans Graph.mem_idsWithLabel
    have hfit : Method.strings.fit? (st.graph.answer (.nodeIds key)) =
        some (st.graph.idsWithLabel (NodeLabel.hierarchy key)) := rfl
    have hnumbered : Numbered L P (NodeLabel.hierarchy key) m
        (TextSet.ofList (st.graph.idsWithLabel (NodeLabel.hierarchy key))) codeOf st.graph
        (st.log ++ [⟨.strings, .of .gremlin (.query (.nodeIds key))⟩]) :=
      ⟨hst.holds.idle (fun _ => id) (Or.inl ⟨_, rfl⟩), fun id hid => hcodeOf id ((hmem id).1 hid)⟩
    obtain ⟨hguar, hreply, hnext⟩ := Standing.ask hready hst hL hfit hnumbered
    refine ⟨hguar, _, hreply, codeOf, fun n hn hcloned => ?_, hnext⟩
    obtain ⟨id, hid⟩ := exists_clone hready hst hn hcloned
    exact ⟨id, (hmem id).2 hid.label, ((hcodeOf id hid.label).functional hid).2⟩
  exact hask.bind fun ids => Achieves.pure (stable_known hready) fun _ hst => hst

/-- The children of the nodes that are known are counted, when all links are cut. -/
theorem achieves_countChildrenOf {ids : TextSet} {codeOf : Id → String}
    (hcut : ∀ s, m.cloned s → m.cut s) :
    Achieves ScriptedStore.environment (company L P (NodeLabel.hierarchy key))
      (Standing L P data (NodeLabel.hierarchy key) (fun _ => False)
        (Numbered L P (NodeLabel.hierarchy key) m ids codeOf))
      ((Backend.gremlin reading writing).countChildrenOf ids)
      fun _ => Standing L P data (NodeLabel.hierarchy key)
        (fun c => ∃ id, id ∈ ids.toList ∧ codeOf id = c)
        (Numbered L P (NodeLabel.hierarchy key) m ids codeOf) := by
  refine (achieves_mutateIds Mutation.countChildrenOf_injective (fun done =>
      Standing L P data (NodeLabel.hierarchy key) (fun c => ∃ id, done id ∧ codeOf id = c)
        (Numbered L P (NodeLabel.hierarchy key) m ids codeOf))
    (fun done => Standing.stable hready lasting_numbered) (fun done st hst => hst.plain)
    fun done st batch hst hbatch => ?_).weaken (fun st hst => ?_) fun _ st hst => hst
  · obtain ⟨hreached, hcoded⟩ := hst.holds
    -- what is linked has been cloned, and what has been cloned is cut loose
    have huncut : ∀ s, ¬ Trail.Linked (NodeLabel.hierarchy key) st.log s := fun s hs =>
      hreached.cut s (hcut s ((hreached.cloned s).1 hs.cloned)) hs
    have hlabel : ∀ id ∈ batch, st.graph.label? id = some (NodeLabel.hierarchy key) :=
      fun id hid => (hcoded id (hbatch id hid)).label
    obtain ⟨hadvances, -⟩ := Graph.advances_countChildrenOf hst.site hL hlabel
    have hnumbered : Numbered L P (NodeLabel.hierarchy key) m ids codeOf
        (st.graph.mutate (.countChildrenOf batch)).2
        (st.log ++ [⟨.mutation, .of .gremlin (.mutation (.countChildrenOf batch))⟩]) :=
      ⟨hreached.idle hadvances.codes (Or.inr ⟨batch, rfl⟩),
        fun id hid => hadvances.kept _ _ _ (hcoded id hid)⟩
    obtain ⟨hguar, reply, hreply, hnext⟩ :=
      hst.countChildrenOf hready hL hlabel huncut hnumbered
    refine ⟨hguar, reply, hreply, ?_⟩
    have hcounted : (fun c => ∃ id, (done id ∨ id ∈ batch) ∧ codeOf id = c) = fun c =>
        (∃ id, done id ∧ codeOf id = c) ∨
          ∃ id ∈ batch, st.graph.Coded (NodeLabel.hierarchy key) c id := by
      funext c
      simp only [or_and_right, exists_or]
      refine propext (or_congr_right (exists_congr fun id => and_congr_right fun hid => ?_))
      have hc := hcoded id (hbatch id hid)
      exact ⟨fun h => h ▸ hc, fun h => (hc.functional h).2⟩
    rw [hcounted]
    exact hnext
  · simpa using hst

/-- The children of all nodes are counted, when all links are cut. -/
theorem achieves_countAll (hcut : ∀ s, m.cloned s → m.cut s) :
    Achieves ScriptedStore.environment (company L P (NodeLabel.hierarchy key))
      (m.At L P data (NodeLabel.hierarchy key) fun _ => False)
      ((Backend.gremlin reading writing).nodeIds key >>=
        (Backend.gremlin reading writing).countChildrenOf)
      fun _ => m.At L P data (NodeLabel.hierarchy key) fun _ => True := by
  refine (achieves_nodeIds hready hL reading writing).bind fun clones => ?_
  intro st hst
  obtain ⟨codeOf, hfound, hst⟩ := hst
  revert st
  refine (achieves_countChildrenOf hready hL reading writing hcut).weaken (fun _ => id) ?_
  -- the nodes with known ids are all there are
  intro _ st hst
  obtain ⟨hreached, -⟩ := hst.holds
  refine hst.recount (fun c hc => iff_of_true ?_ trivial) (fun s hs => ?_) fun h => h.1
  · obtain ⟨n, hn, hcloned, rfl⟩ := (Plan.isSome_sketch hready.distinct).1 hc
    exact hfound n hn ((hreached.cloned n.id).1 hcloned)
  · exact hreached.cut s (hcut s ((hreached.cloned s).1 hs.cloned)) hs

/-- The number of nodes is that of the codes of cloned sources. -/
theorem achieves_countCloned (r : Reader) {counted : String → Prop} :
    Achieves ScriptedStore.environment (company L P (NodeLabel.hierarchy key))
      (m.At L P data (NodeLabel.hierarchy key) counted) (r.countNodes key)
      fun n st => n = (Set.ncard { c | ∃ n ∈ P.sources, m.cloned n.id ∧ n.cloneCode = c } : Nat) ∧
        m.At L P data (NodeLabel.hierarchy key) counted st := by
  refine Achieves.call (Milestones.stable_at hready)
    (fun n => (Milestones.stable_at hready).given _) fun st hst => ?_
  have hfit : Method.count.fit? (st.graph.answer (.countNodes key)) =
      some ((st.graph.idsWithLabel (NodeLabel.hierarchy key)).length : Int) := rfl
  obtain ⟨hguar, hreply, hnext⟩ := hst.ask hready hL hfit
  refine ⟨hguar, _, hreply, ?_, hnext⟩
  -- counting children adds no nodes, so the codes are those of the sketch
  have hcodes : { c | (((P.sketch data (.ofLog (NodeLabel.hierarchy key) st.log)).count
      counted).properties c).isSome } =
        { c | ∃ n ∈ P.sources, m.cloned n.id ∧ n.cloneCode = c } := by
    ext c
    show _ = true ↔ _
    rw [Picture.isSome_count, Plan.isSome_sketch hready.distinct]
    simp only [Progress.ofLog, hst.holds.cloned]
    rfl
  rw [← hcodes, Graph.length_idsWithLabel hst.shows (hst.site.sound.tidy _ hL)]

/-! ## The whole build -/

/-- The codes with data are those at the start. -/
theorem achieves_codesWithData (r : Reader) {counted : String → Prop}
    (hdata : NodeLabel.data key ∉ L) :
    Achieves ScriptedStore.environment (company L P (NodeLabel.hierarchy key))
      (m.At L P data (NodeLabel.hierarchy key) counted) (r.dataCodes key)
      fun codes st => codes = P.start.dataCodes (NodeLabel.data key) ∧
        m.At L P data (NodeLabel.hierarchy key) counted st := by
  refine Achieves.call (Milestones.stable_at hready)
    (fun codes => (Milestones.stable_at hready).given _) fun st hst => ?_
  have hsame : st.graph.dataCodes (NodeLabel.data key) =
      P.start.dataCodes (NodeLabel.data key) := by
    unfold Graph.dataCodes
    rw [hst.site.preserves.nodesWithLabel hdata]
  have hfit : Method.strings.fit? (st.graph.answer (.dataCodes key)) =
      some (P.start.dataCodes (NodeLabel.data key)) := congrArg some hsame
  obtain ⟨hguar, hreply, hnext⟩ := hst.ask hready hL hfit
  exact ⟨hguar, _, hreply, rfl, hnext⟩

/-- The phases of a build, alone or in company. -/
theorem furthers_company (placing : Bool) (hdata : NodeLabel.data key ∉ L) :
    Furthers ScriptedStore.environment (company L P (NodeLabel.hierarchy key)) (fun _ => False) P
      data (fun _ => False) key placing (.gremlin reading writing)
      fun counted m => m.At L P data (NodeLabel.hierarchy key) counted where
  stable _ _ := Milestones.stable_at hready
  stableFail := Achieves.stable_false
  dataCodes := Achieves.iff_copes.1 (achieves_codesWithData hready hL _ hdata)
  genericIds := Achieves.iff_copes.1 (achieves_genericIds hready hL reading writing)
  ancestryIds := Achieves.iff_copes.1 (achieves_ancestryIds hready hL reading writing)
  cloneSources hasData hids hrelated hcut hdone :=
    Achieves.iff_copes.1 (achieves_cloneSources hready hL reading writing hasData
      (fun s hs => ⟨(hids s hs).1.source hready, (hids s hs).2.resolve_left id⟩) hrelated hcut
      hdone)
  relateSources hids hcut hdone :=
    Achieves.iff_copes.1 (achieves_relateSources hready hL reading writing
      (fun s hs => ⟨(hids s hs).1.source hready, (hids s hs).2⟩) hcut hdone)
  linkCodes _ hholds hdone :=
    Achieves.iff_copes.1 (achieves_linkCodes hready hL reading writing hholds
      (fun _ hs => hs.source hready) hdone)
  copyOrder _ hids hcut hdone :=
    Achieves.iff_copes.1 (achieves_copyOrder hready hL reading writing
      (fun s hs => ⟨(hids s hs).1.source hready, (hids s hs).2⟩) hcut hdone)
  unlinkSources hdone :=
    Achieves.iff_copes.1 (achieves_unlinkSources hready hL reading writing hdone)
  countAll hcut := Achieves.iff_copes.1 (achieves_countAll hready hL reading writing hcut)
  countNodes hcloned := hcloned ▸ Achieves.iff_copes.1 (achieves_countCloned hready hL _)

/-- A build from ids, alone or in company, reaches its last milestones. -/
theorem achieves_buildFromIds (placing : Bool) (hdata : NodeLabel.data key ∉ L)
    (hflag : ∀ s, data s = true ↔ P.Carries (P.start.dataCodes (NodeLabel.data key)) s) :
    Achieves ScriptedStore.environment (company L P (NodeLabel.hierarchy key))
      (Milestones.start.At L P data (NodeLabel.hierarchy key) fun _ => False)
      ((Backend.gremlin reading writing).buildFromIds placing key P.codeList)
      fun report st => (∃ sources, report = P.report key sources) ∧
        (Milestones.finished (P.Wanted key) placing).At L P data (NodeLabel.hierarchy key)
          (fun _ => True) st := by
  have hends := (furthers_company hready hL reading writing placing hdata).buildFromIds
    fun s _ => Or.inr (hflag s)
  refine Achieves.iff_copes.2 (hends.weaken (fun _ => id) ?_ fun _ => id)
  rintro report st ⟨⟨t, -, rfl⟩, hst⟩
  exact ⟨⟨t.size, rfl⟩, hst⟩

end InstanceHierarchy
