import InstanceHierarchy.Proofs.BulkOutcome
import InstanceHierarchy.Proofs.Remnants

/-!
# The steps of bulk builds

A bulk build may begin where others left off.  This module takes it from milestone to milestone,
over any store that holds a graph and does with it what is sent: whatever remnant there is, a build
that comes to its end leaves the hierarchy that is wanted of it, and at every point before it leaves
a remnant.  What the store does when a call goes wrong is left to the store.
-/

namespace InstanceHierarchy
namespace Graph

open Environment

variable {key : HierarchyKey} {codeList : Id} {ideal g g' : Graph} {A B : Picture → Prop}

/-! ## Between two steps -/

/-- The nodes outside of a hierarchy are those of another graph, and the generic nodes of a code
list have the same parent edges. -/
structure SameSources (key : HierarchyKey) (codeList : Id) (ideal g : Graph) : Prop where
  nodes : ∀ id v, v.label ≠ NodeLabel.hierarchy key →
    (g.nodes.get? id = some v ↔ ideal.nodes.get? id = some v)
  up : ∀ a, ideal.label? a = some (NodeLabel.generic codeList) → ∀ b, g.Up a b ↔ ideal.Up a b

theorem SameSources.refl (key : HierarchyKey) (codeList : Id) (g : Graph) :
    SameSources key codeList g g :=
  ⟨fun _ _ _ => Iff.rfl, fun _ _ _ => Iff.rfl⟩

theorem SameSources.nodesWithLabel (h : SameSources key codeList ideal g) {label : String}
    (hl : label ≠ NodeLabel.hierarchy key) : g.nodesWithLabel label = ideal.nodesWithLabel label :=
  nodesWithLabel_congr fun id v hv => h.nodes id v (hv ▸ hl)

theorem SameSources.trans (h : SameSources key codeList ideal g)
    (h' : Preserves {NodeLabel.hierarchy key} g g') : SameSources key codeList ideal g' := by
  have hgeneric := (hierarchy_ne_generic key codeList).symm
  refine ⟨fun id v hv => (h'.nodes id v hv).trans (h.nodes id v hv), fun a ha b => ?_⟩
  obtain ⟨ps, hps⟩ := label?_eq_some_iff.1 ha
  have hstored := (h.nodes a _ hgeneric).2 hps
  exact (h'.up a _ hstored hgeneric b).trans (h.up a ha b)

/-- The hierarchy has a picture with a property, and what a build of it reads is as in another
graph. -/
structure Halfway (key : HierarchyKey) (codeList : Id) (ideal : Graph) (A : Picture → Prop)
    (g : Graph) : Prop where
  sound : Sound {NodeLabel.hierarchy key} g
  sources : SameSources key codeList ideal g
  shows : ∃ pic, g.Shows (NodeLabel.hierarchy key) pic ∧ A pic

theorem Halfway.imp (h : Halfway key codeList ideal A g) (himp : ∀ pic, A pic → B pic) :
    Halfway key codeList ideal B g := by
  obtain ⟨pic, hpic, hA⟩ := h.shows
  exact ⟨h.sound, h.sources, pic, hpic, himp pic hA⟩

/-- A change of the picture leads from one property to another. -/
theorem Halfway.change {u : Picture → Picture} (h : Halfway key codeList ideal A g)
    (heffect : Effect {NodeLabel.hierarchy key} g g' (onlyOn (NodeLabel.hierarchy key) u))
    (hu : ∀ pic, A pic → B (u pic)) : Halfway key codeList ideal B g' := by
  obtain ⟨pic, hpic, hA⟩ := h.shows
  have hshows := heffect.shows _ rfl pic hpic
  rw [onlyOn_self] at hshows
  exact ⟨heffect.sound, h.sources.trans heffect.preserves, u pic, hshows, hu pic hA⟩

theorem Halfway.cloneList (h : Halfway key codeList ideal A g)
    (hu : ∀ pic, A pic →
      B (pic.clone codeList false (ideal.nodesWithLabel (NodeLabel.generic codeList)))) :
    Halfway key codeList ideal B (g.mutate (.cloneList key codeList)).2 := by
  have hapart := apart_alone key codeList
  have heffect := effect_cloneNodes codeList false h.sound hapart.own (hapart.outside g)
  rw [records_idsWithLabel,
    h.sources.nodesWithLabel (hierarchy_ne_generic key codeList).symm] at heffect
  exact h.change heffect hu

theorem Halfway.relateList (h : Halfway key codeList ideal A g)
    (hu : ∀ pic, A pic →
      B (pic.relate ideal.Up (ideal.idsWithLabel (NodeLabel.generic codeList)))) :
    Halfway key codeList ideal B (g.mutate (.relateList key codeList)).2 := by
  have hapart := apart_alone key codeList
  have hids : g.idsWithLabel (NodeLabel.generic codeList) =
      ideal.idsWithLabel (NodeLabel.generic codeList) := by
    unfold idsWithLabel
    rw [h.sources.nodesWithLabel (hierarchy_ne_generic key codeList).symm]
  have heffect := effect_relate h.sound hapart.own (hapart.outside g)
  have hchange : Effect {NodeLabel.hierarchy key} g (g.mutate (.relateList key codeList)).2
      (onlyOn (NodeLabel.hierarchy key)
        (Picture.relate ideal.Up (ideal.idsWithLabel (NodeLabel.generic codeList)))) := by
    refine heffect.congr_onlyOn fun pic _ => ?_
    rw [hids]
    exact relate_congr (fun s hs t => h.sources.up s (mem_idsWithLabel.1 hs) t) pic
  exact h.change hchange hu

theorem Halfway.dataCodes (h : Halfway key codeList ideal A g) :
    g.dataCodes (NodeLabel.data key) = ideal.dataCodes (NodeLabel.data key) := by
  unfold Graph.dataCodes
  rw [h.sources.nodesWithLabel (hierarchy_ne_data key).symm]

/-- Builds of a hierarchy have left a remnant behind. -/
def LeftBehind (key : HierarchyKey) (codeList : Id) (ideal g : Graph) : Prop :=
  Halfway key codeList ideal (Remnant ideal (NodeLabel.generic codeList)
    (ideal.dataCodes (NodeLabel.data key)) codeList) g

/-! ## The build step by step -/

/-- What a store does with the calls of a bulk build, unless the build fails.  A mutation leads from
one property of the graph to another one, which it does not take back when it is carried out again;
queries are answered from the graph. -/
structure Serves {σ : Type} (env : Environment σ) (view : σ → Graph) (keeps : Graph → Prop)
    (fail : σ → Prop) (b : Backend) (key : HierarchyKey) (codeList : Id) : Prop where
  mutate : ∀ {P Q : Graph → Prop} {m : Mutation}, (∀ g, P g → Q (g.mutate m).2) →
    (∀ g, Q g → Q (g.mutate m).2) → (∀ g, Q g → keeps g) →
    Copes env (.alone fun s => keeps (view s)) (fun s => P (view s)) (b.mutate m)
      (fun _ s => Q (view s)) fail
  relateList : ∀ {P Q : Graph → Prop}, (∀ g, P g → Q (g.mutate (.relateList key codeList)).2) →
    (∀ g, Q g → Q (g.mutate (.relateList key codeList)).2) → (∀ g, Q g → keeps g) →
    Copes env (.alone fun s => keeps (view s)) (fun s => P (view s)) (b.relateList key codeList)
      (fun _ s => Q (view s)) fail
  ask : ∀ {P : Graph → Prop} {m : Method} {q : Query} (post : m.Reply → Graph → Prop),
    (∀ g, P g → ∃ reply, m.fit? (g.answer q) = some reply ∧ post reply g) →
    Copes env (.alone fun s => keeps (view s)) (fun s => P (view s)) (b.reader.ask m q)
      (fun reply s => post reply (view s)) fail

section Build

variable {σ : Type} {env : Environment σ} {view : σ → Graph} {fail : σ → Prop} {b : Backend}
  {keeps : Graph → Prop}

theorem Serves.constrain (h : Serves env view keeps fail b key codeList) {P : Graph → Prop}
    (hkeeps : ∀ g, P g → keeps g) :
    Copes env (.alone fun s => keeps (view s)) (fun s => P (view s)) (b.constrain key)
      (fun _ s => P (view s)) fail := by
  cases b with
  | gremlin reading writing => exact Copes.pure (Sharing.stable_alone _ _) fun _ hs => hs
  | cypher retry => exact h.mutate (fun _ hg => hg) (fun _ hg => hg) hkeeps

theorem Serves.dataCodes (h : Serves env view keeps fail b key codeList) :
    Copes env (.alone fun s => keeps (view s)) (fun s => Halfway key codeList ideal A (view s))
      (b.reader.dataCodes key) (fun codes s => codes = ideal.dataCodes (NodeLabel.data key) ∧
        Halfway key codeList ideal A (view s)) fail :=
  h.ask (m := .strings) (q := .dataCodes key) (fun codes g =>
    codes = ideal.dataCodes (NodeLabel.data key) ∧ Halfway key codeList ideal A g) fun _ hg =>
      ⟨_, congrArg some hg.dataCodes, rfl, hg⟩

/-- Flagging is left out when there are no codes, which changes nothing. -/
theorem Serves.flagData (h : Serves env view keeps fail b key codeList)
    (hflag : ∀ pic, A pic → B (pic.setWhere (· ∈ ideal.dataCodes (NodeLabel.data key))
      Property.hasData fun _ => .bool true)) (hagain : ∀ pic, B pic → A pic)
    (hkeeps : ∀ g, Halfway key codeList ideal B g → keeps g) :
    Copes env (.alone fun s => keeps (view s)) (fun s => Halfway key codeList ideal A (view s))
      (b.flagData key) (fun _ s => Halfway key codeList ideal B (view s)) fail := by
  refine Copes.bind (Sharing.stable_alone _ _) h.dataCodes fun codes => ?_
  rintro s ⟨rfl, hs⟩
  revert s
  by_cases hempty : (ideal.dataCodes (NodeLabel.data key)).isEmpty
  · rw [if_pos hempty]
    refine Copes.pure (Sharing.stable_alone _ _) fun s hs => ?_
    -- there are no codes to flag
    refine hs.imp fun pic hpic => ?_
    have hsame := hflag pic hpic
    rw [Picture.setWhere_eq_self] at hsame
    · exact hsame
    · intro c
      rw [List.isEmpty_iff.1 hempty]
      exact List.not_mem_nil
  · rw [if_neg hempty]
    have hchange : ∀ g, Halfway key codeList ideal A g → Halfway key codeList ideal B
        (g.mutate (.flagData key (ideal.dataCodes (NodeLabel.data key)))).2 :=
      fun g hg => hg.change (effect_flagData _ hg.sound rfl) hflag
    exact h.mutate hchange (fun g hg => hchange g (hg.imp hagain)) hkeeps

theorem Serves.countNodes {pic : Picture} (h : Serves env view keeps fail b key codeList) :
    Copes env (.alone fun s => keeps (view s))
      (fun s => Halfway key codeList ideal (· = pic) (view s)) (b.reader.countNodes key)
      (fun n s => n = (Set.ncard { c | (pic.properties c).isSome } : Nat) ∧
        Halfway key codeList ideal (· = pic) (view s)) fail := by
  refine h.ask (m := .count) (q := .countNodes key) (fun n g =>
    n = (Set.ncard { c | (pic.properties c).isSome } : Nat) ∧
      Halfway key codeList ideal (· = pic) g) fun g hg => ?_
  obtain ⟨_, hpic, rfl⟩ := hg.shows
  have hlength := length_idsWithLabel hpic (hg.sound.tidy _ rfl)
  refine ⟨_, rfl, ?_, hg⟩
  rw [hlength]

/-- A mutation that changes the picture leads from one milestone to the next, and not back. -/
theorem Serves.change {u : Picture → Picture} {m : Mutation}
    (h : Serves env view (LeftBehind key codeList ideal) fail b key codeList)
    (heffect : ∀ g, Sound {NodeLabel.hierarchy key} g →
      Effect {NodeLabel.hierarchy key} g (g.mutate m).2 (onlyOn (NodeLabel.hierarchy key) u))
    (hu : ∀ pic, A pic → B (u pic)) (hagain : ∀ pic, B pic → B (u pic))
    (hleft : ∀ pic, B pic → Remnant ideal (NodeLabel.generic codeList)
      (ideal.dataCodes (NodeLabel.data key)) codeList pic) :
    Copes env (.alone fun s => LeftBehind key codeList ideal (view s))
      (fun s => Halfway key codeList ideal A (view s)) (b.mutate m)
      (fun _ s => Halfway key codeList ideal B (view s)) fail :=
  h.mutate (fun g hg => hg.change (heffect g hg.sound) hu)
    (fun g hg => hg.change (heffect g hg.sound) hagain) fun _ hg => hg.imp hleft

/-- A bulk build that begins with a remnant and does not fail makes the wanted hierarchy. -/
theorem copes_buildBulk (h : Serves env view (LeftBehind key codeList ideal) fail b key codeList) :
    Copes env (.alone fun s => LeftBehind key codeList ideal (view s))
      (fun s => LeftBehind key codeList ideal (view s)) (b.buildBulk key codeList)
      (fun report s => report = ideal.bulkReport key codeList ∧ Halfway key codeList ideal
        (· = ideal.instanceOf (ideal.dataCodes (NodeLabel.data key)) codeList) (view s)) fail := by
  have hfail := Sharing.stable_alone (fun s => LeftBehind key codeList ideal (view s)) fail
  unfold Backend.buildBulk
  refine Copes.bind hfail (h.constrain fun _ => id) fun _ => ?_
  refine Copes.bind hfail (h.mutate (fun _ hg => hg.cloneList fun _ => Remnant.toCloned)
    (fun _ hg => hg.cloneList fun _ hpic => hpic.toRemnant.toCloned)
    fun _ hg => hg.imp fun _ hpic => hpic.toRemnant) fun _ => ?_
  refine Copes.bind hfail (h.relateList
    (fun _ hg => hg.relateList fun _ => Remnant.Cloned.toRelated)
    (fun _ hg => hg.relateList fun _ => Remnant.Related.again)
    fun _ hg => hg.imp fun _ hpic => hpic.toRemnant) fun _ => ?_
  refine Copes.bind hfail (h.change (fun _ => effect_unlinkClones)
    (fun _ => Remnant.Related.toUnlinked) (fun _ hpic => hpic.toRelated.toUnlinked)
    fun _ hpic => hpic.toRemnant) fun _ => ?_
  refine Copes.bind hfail (h.flagData (fun _ => Remnant.Unlinked.toFlagged)
    (fun _ hpic => hpic.toUnlinked) fun _ hg => hg.imp fun _ hpic => hpic.toRemnant) fun _ => ?_
  refine Copes.bind hfail (h.change (fun _ hg => effect_markRemaining hg rfl)
    (fun _ => Remnant.Flagged.toMarked) (fun _ hpic => hpic.toFlagged.toMarked)
    fun _ hpic => hpic.toRemnant) fun _ => ?_
  refine Copes.bind hfail (h.change (fun _ hg => effect_dropUnmarked hg rfl)
    (fun _ => Remnant.Marked.toPruned) (fun _ => Remnant.Pruned.again)
    fun _ hpic => hpic.toRemnant) fun _ => ?_
  refine Copes.bind hfail (h.change (fun _ hg => effect_clearMarks hg rfl)
    (fun _ hpic => hpic.toTrimmed.toCleared) (fun _ hpic => hpic.toTrimmed.toCleared)
    fun _ hpic => hpic.toRemnant) fun _ => ?_
  refine Copes.bind hfail (h.change (fun _ hg => effect_countAll hg rfl)
    (fun _ => Remnant.Cleared.toCounted) (fun _ hpic => hpic.toCleared.toCounted)
    fun _ hpic => hpic.toRemnant) fun _ => ?_
  refine Copes.weaken ?_ (fun _ hs => hs.imp fun _ => Remnant.Counted.eq_instanceOf)
    (fun _ _ => id) fun _ => id
  refine Copes.bind hfail h.dataCodes fun codes => ?_
  rintro s ⟨rfl, hs⟩
  revert s
  refine Copes.bind hfail h.countNodes fun n => ?_
  refine Copes.pure (Sharing.stable_alone _ _) ?_
  rintro s ⟨rfl, hs⟩
  exact ⟨rfl, hs⟩

end Build
end Graph
end InstanceHierarchy
