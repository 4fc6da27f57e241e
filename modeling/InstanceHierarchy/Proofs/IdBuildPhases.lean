import InstanceHierarchy.Proofs.SourceLookup

/-!
# The phases of builds from ids

A build from ids finds the sources that are wanted, and each of its phases takes it to its next
milestones.  What the store is, who else works on it and what happens when a call fails is left open
here: all that is asked is that every phase, taken by itself, leads on or fails.
-/

namespace InstanceHierarchy

open Environment

/-- The source carries one of the codes or is an ancestor of one that does. -/
def Plan.Relevant (P : Plan) (codes : List String) (s : Id) : Prop :=
  P.Carries codes s ∨ P.Above codes s

/-- The sources that the build of a hierarchy has to clone. -/
abbrev Plan.Wanted (P : Plan) (key : HierarchyKey) : Id → Prop :=
  P.Relevant (P.start.dataCodes (NodeLabel.data key))

/-- The wanted sources are cloned, -/
def Milestones.cloning (wanted : Id → Prop) : Milestones where
  cloned := wanted
  related _ := False
  coded _ := False
  placed _ := False
  cut _ := False

/-- and their parent edges are repeated. -/
def Milestones.relating (wanted : Id → Prop) : Milestones where
  cloned := wanted
  related := wanted
  coded _ := False
  placed _ := False
  cut _ := False

/-- The milestones of a finished build, which has given places or not. -/
def Milestones.finished (wanted : Id → Prop) : Bool → Milestones
  | false => { Milestones.relating wanted with cut := wanted }
  | true => ⟨wanted, wanted, wanted, wanted, wanted⟩

/-- The report of a build from ids, but for the number of sources it counts. -/
noncomputable def Plan.report (P : Plan) (key : HierarchyKey) (sources : Nat) : BuildReport where
  key := key
  codeList := P.codeList
  idDriven := true
  codesWithData := (P.start.dataCodes (NodeLabel.data key)).length
  clonedNodes := some sources
  nodeCount := Set.ncard { c | ∃ n ∈ P.sources, P.Wanted key n.id ∧ n.cloneCode = c }

theorem Plan.Relevant.source {L : Set String} {P : Plan} (hready : P.Ready L) {codes : List String}
    {s : Id} (h : P.Relevant codes s) : ∃ n ∈ P.sources, n.id = s :=
  h.elim Plan.Carries.source (Plan.Above.source hready)

/-- The tables of the sources with data and of the ancestors hold together the wanted sources. -/
theorem Plan.Holds.wanted {P : Plan} {key : HierarchyKey} {leaves reached : CodesById}
    (hleaves : P.Holds (P.Carries (P.start.dataCodes (NodeLabel.data key))) leaves)
    (hreached : P.Holds (P.Above (P.start.dataCodes (NodeLabel.data key))) reached) :
    P.Holds (P.Wanted key) (leaves.union (reached.filter fun s _ => !leaves.contains s)) := by
  refine (hleaves.union (hreached.without hleaves)).congr fun s => ?_
  unfold Plan.Wanted Plan.Relevant
  rw [or_and_left]
  exact and_iff_left (Classical.em _)

/-- Each phase of a build from ids leads from any milestones at which the build may come to it to
the next ones, or fails.  Sources are cloned as `data` has it, but for old ones, which have their
clones already; and places are given only if `placing`. -/
structure Furthers {σ : Type} (env : Environment σ) (S : Sharing σ) (fail : σ → Prop) (P : Plan)
    (data : Id → Bool) (old : Id → Prop) (key : HierarchyKey) (placing : Bool) (b : Backend)
    (stage : (String → Prop) → Milestones → σ → Prop) : Prop where
  stable : ∀ counted m, S.Stable (stage counted m)
  stableFail : S.Stable fail
  dataCodes : ∀ {m}, Copes env S (stage (fun _ => False) m) (b.reader.dataCodes key)
    (fun codes s => codes = P.start.dataCodes (NodeLabel.data key) ∧
      stage (fun _ => False) m s) fail
  genericIds : ∀ {m codes}, Copes env S (stage (fun _ => False) m) (b.genericIds P.codeList codes)
    (fun t s => P.Holds (P.Carries codes) t ∧ stage (fun _ => False) m s) fail
  ancestryIds : ∀ {m codes}, Copes env S (stage (fun _ => False) m)
    (b.ancestryIds P.codeList codes)
    (fun t s => P.Holds (P.Above codes) t ∧ stage (fun _ => False) m s) fail
  cloneSources : ∀ {m} {ids : TextSet} {done : Id → Prop} (hasData : Bool),
    (∀ s ∈ ids.toList, P.Wanted key s ∧ (old s ∨ data s = hasData)) → (∀ s, ¬ m.related s) →
    (∀ s, ¬ m.cut s) → (∀ s, done s ↔ m.cloned s ∨ s ∈ ids.toList) →
    Copes env S (stage (fun _ => False) m) (b.cloneSources key P.codeList ids hasData)
      (fun _ => stage (fun _ => False) { m with cloned := done }) fail
  relateSources : ∀ {m} {ids : TextSet} {done : Id → Prop},
    (∀ s ∈ ids.toList, P.Wanted key s ∧ m.cloned s) → (∀ s, ¬ m.cut s) →
    (∀ s, done s ↔ m.related s ∨ s ∈ ids.toList) →
    Copes env S (stage (fun _ => False) m) (b.relateSources key ids)
      (fun _ => stage (fun _ => False) { m with related := done }) fail
  linkCodes : ∀ {m} {codes : CodesById} {done : Id → Prop}, placing = true →
    P.Holds (P.Wanted key) codes → (∀ s, done s ↔ m.coded s ∨ P.Wanted key s) →
    Copes env S (stage (fun _ => False) m) (b.linkCodes P.codeList codes)
      (fun _ => stage (fun _ => False) { m with coded := done }) fail
  copyOrder : ∀ {m} {ids : TextSet} {done : Id → Prop}, placing = true →
    (∀ s ∈ ids.toList, P.Wanted key s ∧ m.cloned s ∧ m.coded s) → (∀ s, ¬ m.cut s) →
    (∀ s, done s ↔ m.placed s ∨ s ∈ ids.toList) →
    Copes env S (stage (fun _ => False) m) (b.copyOrder P.codeList ids)
      (fun _ => stage (fun _ => False) { m with placed := done }) fail
  unlinkSources : ∀ {m} {ids : TextSet} {done : Id → Prop},
    (∀ s, done s ↔ m.cut s ∨ s ∈ ids.toList) →
    Copes env S (stage (fun _ => False) m) (b.unlinkSources ids)
      (fun _ => stage (fun _ => False) { m with cut := done }) fail
  countAll : ∀ {m}, (∀ s, m.cloned s → m.cut s) → Copes env S (stage (fun _ => False) m)
    (b.nodeIds key >>= b.countChildrenOf) (fun _ => stage (fun _ => True) m) fail
  countNodes : ∀ {m}, m.cloned = P.Wanted key →
    Copes env S (stage (fun _ => True) m) (b.reader.countNodes key)
      (fun n s =>
        n = (Set.ncard { c | ∃ n ∈ P.sources, P.Wanted key n.id ∧ n.cloneCode = c } : Nat) ∧
          stage (fun _ => True) m s) fail

namespace Furthers

variable {σ : Type} {env : Environment σ} {S : Sharing σ} {fail : σ → Prop} {P : Plan}
  {data : Id → Bool} {old : Id → Prop} {key : HierarchyKey} {placing : Bool} {b : Backend}
  {stage : (String → Prop) → Milestones → σ → Prop} {m : Milestones}

/-- The wanted sources are cloned, those with data first. -/
theorem cloneWanted (h : Furthers env S fail P data old key placing b stage)
    {leaves ancestors : TextSet}
    (hflag : ∀ s, P.Wanted key s →
      old s ∨ (data s = true ↔ P.Carries (P.start.dataCodes (NodeLabel.data key)) s))
    (hleaves : ∀ s, s ∈ leaves.toList ↔ P.Carries (P.start.dataCodes (NodeLabel.data key)) s)
    (hancestors : ∀ s, s ∈ ancestors.toList ↔
      P.Above (P.start.dataCodes (NodeLabel.data key)) s ∧
        ¬ P.Carries (P.start.dataCodes (NodeLabel.data key)) s) :
    Copes env S (stage (fun _ => False) .start)
      (do
        b.cloneSources key P.codeList leaves true
        b.cloneSources key P.codeList ancestors false)
      (fun _ => stage (fun _ => False) (.cloning (P.Wanted key))) fail := by
  have hfirst : ∀ s ∈ leaves.toList, P.Wanted key s ∧ (old s ∨ data s = true) := by
    intro s hs
    have hcarries := (hleaves s).1 hs
    have hwanted : P.Wanted key s := Or.inl hcarries
    exact ⟨hwanted, (hflag s hwanted).imp_right fun h => h.2 hcarries⟩
  have hsecond : ∀ s ∈ ancestors.toList, P.Wanted key s ∧ (old s ∨ data s = false) := by
    intro s hs
    obtain ⟨habove, hnot⟩ := (hancestors s).1 hs
    have hwanted : P.Wanted key s := Or.inr habove
    exact ⟨hwanted, (hflag s hwanted).imp_right fun h =>
      Bool.eq_false_iff.2 fun htrue => hnot (h.1 htrue)⟩
  have hall : ∀ s, P.Wanted key s ↔
      P.Carries (P.start.dataCodes (NodeLabel.data key)) s ∨ s ∈ ancestors.toList := by
    intro s
    unfold Plan.Wanted Plan.Relevant
    rw [hancestors, or_and_left]
    exact (and_iff_left (Classical.em _)).symm
  have hleaves' : ∀ s, P.Carries (P.start.dataCodes (NodeLabel.data key)) s ↔
      False ∨ s ∈ leaves.toList := by
    intro s
    rw [false_or, hleaves]
  exact (h.cloneSources true hfirst (fun _ => id) (fun _ => id) hleaves').bind h.stableFail fun _ =>
    h.cloneSources false hsecond (fun _ => id) (fun _ => id) hall

/-- The cloned sources are linked to their codes, and their clones get their places. -/
theorem giveOrder (h : Furthers env S fail P data old key placing b stage) {generic : CodesById}
    (hplacing : placing = true) (hholds : P.Holds (P.Wanted key) generic) :
    Copes env S (stage (fun _ => False) (.relating (P.Wanted key)))
      (do
        b.linkCodes P.codeList generic
        b.copyOrder P.codeList generic.keySet)
      (fun _ => stage (fun _ => False) { Milestones.relating (P.Wanted key) with
        coded := P.Wanted key
        placed := P.Wanted key }) fail := by
  have hall : ∀ s, P.Wanted key s ↔ False ∨ P.Wanted key s := by
    intro s
    rw [false_or]
  refine (h.linkCodes (m := .relating (P.Wanted key)) hplacing hholds hall).bind h.stableFail
    fun _ => h.copyOrder (m := { Milestones.relating (P.Wanted key) with coded := P.Wanted key })
      hplacing (fun s hs => ?_) (fun _ => id) fun s => ?_
  · have hwanted := hholds.mem.1 hs
    exact ⟨hwanted, hwanted, hwanted⟩
  · rw [hholds.mem]
    exact hall s

/-- The links are cut, and the children are counted. -/
theorem settle (h : Furthers env S fail P data old key placing b stage) {generic : CodesById}
    (hholds : P.Holds (P.Wanted key) generic) (hcloned : m.cloned = P.Wanted key)
    (hcut : ∀ s, ¬ m.cut s) (makeReport : Int → BuildReport) :
    Copes env S (stage (fun _ => False) m)
      (do
        b.unlinkSources generic.keySet
        let clones ← b.nodeIds key
        b.countChildrenOf clones
        let nodeCount ← b.reader.countNodes key
        return makeReport nodeCount)
      (fun report s => report = makeReport
          (Set.ncard { c | ∃ n ∈ P.sources, P.Wanted key n.id ∧ n.cloneCode = c } : Nat) ∧
        stage (fun _ => True) { m with cut := P.Wanted key } s) fail := by
  have hcuts : ∀ s, P.Wanted key s ↔ m.cut s ∨ s ∈ generic.keySet.toList := by
    intro s
    rw [eq_false (hcut s), false_or, hholds.mem]
  refine (h.unlinkSources hcuts).bind h.stableFail fun _ => ?_
  rw [← bind_assoc]
  refine (h.countAll fun s hs => hcloned ▸ hs).bind h.stableFail fun _ => ?_
  refine (h.countNodes (m := { m with cut := P.Wanted key }) hcloned).bind h.stableFail
    fun n => Copes.given fun hn => ?_
  refine Copes.pure ((h.stable _ _).given _) fun s hs => ?_
  rw [hn]
  exact ⟨rfl, hs⟩

/-- When the wanted sources are cloned, the rest of a build reaches its end, or fails. -/
theorem finish (h : Furthers env S fail P data old key placing b stage) {generic : CodesById}
    (hholds : P.Holds (P.Wanted key) generic) (makeReport : Int → BuildReport) :
    Copes env S (stage (fun _ => False) (.cloning (P.Wanted key)))
      (do
        b.relateSources key generic.keySet
        if placing then
          b.linkCodes P.codeList generic
          b.copyOrder P.codeList generic.keySet
        b.unlinkSources generic.keySet
        let clones ← b.nodeIds key
        b.countChildrenOf clones
        let nodeCount ← b.reader.countNodes key
        return makeReport nodeCount)
      (fun report s => report = makeReport
          (Set.ncard { c | ∃ n ∈ P.sources, P.Wanted key n.id ∧ n.cloneCode = c } : Nat) ∧
        stage (fun _ => True) (.finished (P.Wanted key) placing) s) fail := by
  have hrelated : ∀ s, P.Wanted key s ↔ False ∨ s ∈ generic.keySet.toList := by
    intro s
    rw [false_or, hholds.mem]
  refine (h.relateSources (fun s hs => ⟨hholds.mem.1 hs, hholds.mem.1 hs⟩) (fun _ => id)
    hrelated).bind h.stableFail fun _ => ?_
  cases placing with
  | false => exact h.settle (m := .relating (P.Wanted key)) hholds rfl (fun _ => id) makeReport
  | true =>
      have hwhole := (h.giveOrder rfl hholds).bind h.stableFail fun _ =>
        h.settle (m := { Milestones.relating (P.Wanted key) with
          coded := P.Wanted key
          placed := P.Wanted key }) hholds rfl (fun _ => id) makeReport
      rw [bind_assoc] at hwhole
      exact hwhole

/-- A build from ids reaches its last milestones, or fails.  Its report counts the wanted
sources. -/
theorem buildFromIds (h : Furthers env S fail P data old key placing b stage)
    (hflag : ∀ s, P.Wanted key s →
      old s ∨ (data s = true ↔ P.Carries (P.start.dataCodes (NodeLabel.data key)) s)) :
    Copes env S (stage (fun _ => False) .start) (b.buildFromIds placing key P.codeList)
      (fun report s => (∃ t, P.Holds (P.Wanted key) t ∧ report = P.report key t.size) ∧
        stage (fun _ => True) (.finished (P.Wanted key) placing) s) fail := by
  unfold Backend.buildFromIds
  refine h.dataCodes.bind h.stableFail fun codes => Copes.given ?_
  rintro rfl
  refine h.genericIds.bind h.stableFail fun leaves => Copes.given fun hleaves => ?_
  refine h.ancestryIds.bind h.stableFail fun reached => Copes.given fun hreached => ?_
  have hancestors := hreached.without hleaves
  have hgeneric := hleaves.wanted hreached
  rw [← bind_assoc]
  refine (h.cloneWanted hflag (fun s => hleaves.mem) fun s => hancestors.mem).bind h.stableFail
    fun _ => ?_
  -- the report counts the sources that were found and the nodes that are there
  let makeReport : Int → BuildReport := fun n =>
    { P.report key (leaves.union (reached.filter fun s _ => !leaves.contains s)).size with
      nodeCount := n }
  refine (h.finish hgeneric makeReport).weaken (fun _ => id) ?_ fun _ => id
  rintro report s ⟨rfl, hs⟩
  exact ⟨⟨_, hgeneric, rfl⟩, hs⟩

end Furthers
end InstanceHierarchy
