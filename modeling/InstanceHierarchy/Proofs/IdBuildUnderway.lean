import InstanceHierarchy.Proofs.HierarchyDrafts
import InstanceHierarchy.Proofs.Renaming

/-!
# Graphs in which a build from ids is under way

Between any two calls of a build from ids the graph is a site that shows a draft of the hierarchy.
Nothing was added to it but for the hierarchy, and links from wanted sources to their codes.  This
is so at the start, every call of the build keeps it so, and when the build comes to its last
milestones the hierarchy is the finished one, whatever the build began with.

Some sources may be old ones, which earlier builds have cloned.  Their clones stay, so it does not
matter how a build that clones them again would flag them.
-/

namespace InstanceHierarchy
namespace Graph

variable {P : Plan} {data : Id → Bool} {old : Id → Prop} {key : HierarchyKey} {placing : Bool}
  {counted : String → Prop} {m : Milestones} {g g' : Graph}

/-- A node of the hierarchy has the code of the source already. -/
def HasClone (P : Plan) (key : HierarchyKey) (s : Id) (g : Graph) : Prop :=
  ∃ n ∈ P.sources, n.id = s ∧ ∃ id, g.Coded (NodeLabel.hierarchy key) n.cloneCode id

theorem HasClone.kept {s : Id} (h : HasClone P key s g) (hkept : Kept g g') :
    HasClone P key s g' := by
  obtain ⟨n, hn, hid, id, hcode⟩ := h
  exact ⟨n, hn, hid, id, hkept _ _ _ hcode⟩

/-- The build of a hierarchy is under way: it stands at its milestones, and the children of some
nodes have been counted.  The clones of the old sources are there, whatever it stands at. -/
structure Underway (P : Plan) (data : Id → Bool) (old : Id → Prop) (key : HierarchyKey)
    (placing : Bool) (counted : String → Prop) (m : Milestones) (g : Graph) : Prop where
  site : Site {NodeLabel.hierarchy key} P g
  workedOn : WorkedOn P.start (NodeLabel.hierarchy key) g
  /-- Only wanted sources are linked to codes, and only to give places. -/
  untouched : ∀ s, ¬ (placing = true ∧ P.Wanted key s) →
    g.targets s EdgeLabel.hasCode = P.start.targets s EdgeLabel.hasCode
  coded : ∀ s, m.coded s → g.CodeLinked P s
  clones : ∀ s, old s → HasClone P key s g
  shows : ∃ pic, g.Shows (NodeLabel.hierarchy key) pic ∧ P.Draft data key placing counted m pic

namespace Underway

/-- A build that has not begun. -/
theorem start (hready : P.Ready {NodeLabel.hierarchy key}) (hfresh : P.start.Fresh)
    (hfree : ∀ id, P.start.label? id ≠ some (NodeLabel.hierarchy key)) :
    Underway P data (fun _ => False) key placing (fun _ => False) .start P.start where
  site := Plan.Ready.site hfresh fun _ hK => hK ▸ hfree
  workedOn := workedOn_start hfresh hfree
  untouched _ _ := rfl
  coded _ h := h.elim
  clones _ h := h.elim
  shows := ⟨Picture.empty, shows_empty hfree, .empty hready.distinct⟩

/-- A build that is under way may be taken for one that has not begun. -/
theorem begun (h : Underway P data old key placing counted m g) :
    Underway P data old key placing (fun _ => False) .start g := by
  obtain ⟨pic, hpic, hdraft⟩ := h.shows
  exact ⟨h.site, h.workedOn, h.untouched, fun _ h => h.elim, h.clones, pic, hpic, hdraft.begun⟩

/-- Only the codes of nodes matter to what has been counted. -/
theorem recount {counted' : String → Prop} (h : Underway P data old key placing counted m g)
    (hsame : ∀ c id, g.Coded (NodeLabel.hierarchy key) c id → (counted c ↔ counted' c)) :
    Underway P data old key placing counted' m g := by
  obtain ⟨pic, hpic, hsketched, hcounted⟩ := h.shows
  refine { h with shows := ⟨pic, hpic, hsketched, ?_⟩ }
  have hcount : pic.count counted = pic.count counted' := by
    refine Picture.count_congr fun c hc => ?_
    obtain ⟨ps, hps⟩ := Option.isSome_iff_exists.1 hc
    obtain ⟨id, -, hid⟩ := hpic.exists_coded hps
    exact hsame c id hid
  exact hcount.symm.trans hcounted

/-! ## Calls of a build -/

section Calls

variable {ids : List Id} {done : Id → Prop} (hready : P.Ready {NodeLabel.hierarchy key})
  (hfresh : P.start.Fresh)

include hready hfresh

/-- A mutation that advances the site takes one draft to another one. -/
theorem next {m' : Milestones} {mutation : Mutation}
    (h : Underway P data old key placing (fun _ => False) m g)
    (hadvances : Advances {NodeLabel.hierarchy key} P {NodeLabel.hierarchy key}
      (.mutation mutation) g (g.mutate mutation).2)
    (hworks : WorksFor (· = NodeLabel.hierarchy key) mutation)
    (huntouched : ∀ s, ¬ (placing = true ∧ P.Wanted key s) →
      (g.mutate mutation).2.targets s EdgeLabel.hasCode = g.targets s EdgeLabel.hasCode)
    (hcoded : ∀ s, m'.coded s → m.coded s ∨ (g.mutate mutation).2.CodeLinked P s)
    (hdraft : ∀ pic, g.Shows (NodeLabel.hierarchy key) pic →
      P.Draft data key placing (fun _ => False) m pic → P.Draft data key placing (fun _ => False) m'
        (P.applied (NodeLabel.hierarchy key) (.mutation mutation) pic)) :
    Underway P data old key placing (fun _ => False) m' (g.mutate mutation).2 := by
  obtain ⟨pic, hpic, hpicDraft⟩ := h.shows
  refine ⟨hadvances.site, h.workedOn.mutate hfresh hready.unlinked hworks, fun s hs => ?_,
    fun s hs => ?_, fun s hs => (h.clones s hs).kept hadvances.kept, _,
    hadvances.shows _ rfl pic hpic, hdraft pic hpic hpicDraft⟩
  · rw [huntouched s hs, h.untouched s hs]
  · rcases hcoded s hs with hs | hs
    · exact hadvances.codes s (h.coded s hs)
    · exact hs

/-- Whether sources are cloned as ones with data makes a difference to new clones alone. -/
theorem cloneSources (h : Underway P data old key placing (fun _ => False) m g) {hasData : Bool}
    (hids : ∀ s ∈ ids, P.Wanted key s ∧ (old s ∨ data s = hasData))
    (hrelated : ∀ s, ¬ m.related s) (hcut : ∀ s, ¬ m.cut s)
    (hdone : ∀ s, done s ↔ m.cloned s ∨ s ∈ ids) :
    Underway P data old key placing (fun _ => False) { m with cloned := done }
      (g.mutate (.cloneSources key P.codeList ids hasData)).2 := by
  have hsource : ∀ s ∈ ids, ∃ n ∈ P.sources, n.id = s := fun s hs => (hids s hs).1.source hready
  have hadvances := advances_cloneSources hready h.site rfl hasData hsource
  have hsame := sameOthers_cloneNodes g ids (NodeLabel.hierarchy key) P.codeList hasData
  refine h.next hready hfresh hadvances rfl (fun s _ => hsame.codes s) (fun _ => Or.inl)
    fun pic hshows hpic => ?_
  refine hpic.cloneSources hready.distinct (fun s hs => ?_) hrelated hcut hdone
  refine ⟨hsource s hs, (hids s hs).1, (hids s hs).2.imp_left fun hold => ?_⟩
  obtain ⟨n, hn, rfl, id, ps, hps, hcode⟩ := h.clones s hold
  have hmem : ∃ id, g.nodes.get? id = some ⟨NodeLabel.hierarchy key, ps⟩ ∧
      codeIn ps = n.cloneCode := ⟨id, hps, hcode⟩
  exact ⟨n, hn, rfl, Option.isSome_iff_exists.2 ⟨ps, (hshows.properties _ _).2 hmem⟩⟩

theorem relateSources (h : Underway P data old key placing (fun _ => False) m g)
    (hids : ∀ s ∈ ids, P.Wanted key s ∧ m.cloned s) (hcut : ∀ s, ¬ m.cut s)
    (hdone : ∀ s, done s ↔ m.related s ∨ s ∈ ids) :
    Underway P data old key placing (fun _ => False) { m with related := done }
      (g.mutate (.relateSources key ids)).2 := by
  have hsource : ∀ s ∈ ids, ∃ n ∈ P.sources, n.id = s := fun s hs => (hids s hs).1.source hready
  have hadvances := advances_relateSources hready h.site rfl hsource
  have hsame := sameOthers_relate g ids (NodeLabel.hierarchy key)
  refine h.next hready hfresh hadvances rfl (fun s _ => hsame.codes s) (fun _ => Or.inl)
    fun pic _ hpic => ?_
  exact hpic.relateSources (fun s hs => (hids s hs).2) hcut hdone

theorem copyOrder (h : Underway P data old key placing (fun _ => False) m g)
    (hplacing : placing = true)
    (hids : ∀ s ∈ ids, P.Wanted key s ∧ m.cloned s ∧ m.coded s) (hcut : ∀ s, ¬ m.cut s)
    (hdone : ∀ s, done s ↔ m.placed s ∨ s ∈ ids) :
    Underway P data old key placing (fun _ => False) { m with placed := done }
      (g.mutate (.copyOrder P.codeList ids)).2 := by
  have hsource : ∀ s ∈ ids, ∃ n ∈ P.sources, n.id = s := fun s hs => (hids s hs).1.source hready
  have hlinked : ∀ s ∈ ids, g.CodeLinked P s := fun s hs => h.coded s (hids s hs).2.2
  have hadvances := advances_copyOrder hready h.site hsource hlinked
  have hsame := SameOthers.of_edges (edges_mutate_copyOrder g P.codeList ids)
  refine h.next hready hfresh hadvances trivial (fun s _ => hsame.codes s) (fun _ => Or.inl)
    fun pic _ hpic => ?_
  exact hpic.copyOrder hready.distinct hplacing (fun s hs => (hids s hs).2.1) hcut hdone

variable (ids) in
theorem unlinkSources (h : Underway P data old key placing (fun _ => False) m g)
    (hdone : ∀ s, done s ↔ m.cut s ∨ s ∈ ids) :
    Underway P data old key placing (fun _ => False) { m with cut := done }
      (g.mutate (.unlinkSources ids)).2 := by
  have hsame := sameOthers_unlinkSources g ids
  exact h.next hready hfresh (advances_unlinkSources h.site ids) trivial
    (fun s _ => hsame.codes s) (fun _ => Or.inl) fun _ _ hpic => hpic.unlinkSources hdone

/-- The links of other sources to codes stay as they are when one is linked. -/
theorem linkCode (h : Underway P data old key placing (fun _ => False) m g)
    (hplacing : placing = true) {n : Node} (hn : n ∈ P.sources) (hwanted : P.Wanted key n.id)
    (hdone : ∀ s, done s ↔ m.coded s ∨ s = n.id) :
    Underway P data old key placing (fun _ => False) { m with coded := done }
      (g.mutate (.linkCode P.codeList n.id n.cloneCode)).2 := by
  obtain ⟨hadvances, hlinked⟩ := advances_linkCode hready h.site hn
  refine h.next hready hfresh hadvances trivial (fun s hs => ?_) (fun s hs => ?_)
    fun _ _ hpic => hpic.linkCode n.id n.cloneCode
  · exact targets_linkCode_of_ne n.cloneCode fun hsn => hs ⟨hplacing, hsn ▸ hwanted⟩
  · rcases (hdone s).1 hs with hs | rfl
    · exact Or.inl hs
    · exact Or.inr hlinked

/-- Counting the children of some nodes of the hierarchy. -/
theorem countChildrenOf (h : Underway P data old key placing counted m g)
    (hids : ∀ id ∈ ids, g.label? id = some (NodeLabel.hierarchy key)) :
    Underway P data old key placing
      (fun c => counted c ∨ ∃ id ∈ ids, g.Coded (NodeLabel.hierarchy key) c id) m
      (g.mutate (.countChildrenOf ids)).2 := by
  obtain ⟨hadvances, hshows⟩ := advances_countChildrenOf h.site rfl hids
  have hsame := SameOthers.of_edges (edges_countChildren g ids)
  obtain ⟨pic, hpic, hdraft⟩ := h.shows
  refine ⟨hadvances.site, h.workedOn.mutate hfresh hready.unlinked trivial, fun s hs => ?_,
    fun s hs => hadvances.codes s (h.coded s hs),
    fun s hs => (h.clones s hs).kept hadvances.kept, _, hshows pic hpic, hdraft.count _⟩
  exact (hsame.codes s).trans (h.untouched s hs)

end Calls

/-! ## The end of a build -/

/-- A node is linked to a code when a build is done that gives places or does not. -/
def CodeJoined (P : Plan) (key : HierarchyKey) (placing : Bool) (a b : Id) : Prop :=
  (placing = true ∧ P.Wanted key a ∧ (P.withCode a).Joined EdgeLabel.hasCode a b) ∨
    (¬ (placing = true ∧ P.Wanted key a) ∧ P.start.Joined EdgeLabel.hasCode a b)

/-- A build at its last milestones leaves the finished hierarchy. -/
theorem settled
    (h : Underway P data old key placing (fun _ => True) (.finished (P.Wanted key) placing) g) :
    Settled P.start (NodeLabel.hierarchy key)
      ((P.sketch data (.final (P.Wanted key) placing)).count fun _ => True)
      (CodeJoined P key placing) g := by
  obtain ⟨pic, hpic, hdraft⟩ := h.shows
  refine ⟨h.workedOn, h.site.sound.tidy _ rfl, hdraft.eq_finished ▸ hpic, h.site.preserves.nodes,
    fun a b => ?_⟩
  unfold CodeJoined
  by_cases ha : placing = true ∧ P.Wanted key a
  · obtain ⟨rfl, hwanted⟩ := ha
    have hlinked : g.CodeLinked P a := h.coded a hwanted
    unfold CodeLinked at hlinked
    rw [← mem_targets, hlinked, mem_targets]
    simp [hwanted]
  · rw [← mem_targets, h.untouched a ha, mem_targets]
    rw [not_and] at ha
    tauto

end Underway
end Graph
end InstanceHierarchy
