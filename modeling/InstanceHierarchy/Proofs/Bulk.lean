import InstanceHierarchy.Proofs.Building
import InstanceHierarchy.Proofs.Cloning
import InstanceHierarchy.Proofs.Marking
import InstanceHierarchy.Proofs.Mirroring
import InstanceHierarchy.Proofs.Pruning
import InstanceHierarchy.Proofs.TargetHierarchy

/-!
# Bulk builds

A bulk build clones a whole code list, repeats the parent edges, marks what is relevant and removes
the rest.  Its picture goes through eight changes, which together make the hierarchy that is wanted
of the build.
-/

namespace InstanceHierarchy

open Relation

/-! ## The eight changes make the wanted hierarchy -/

namespace Picture

variable {g : Graph} {label : String} {codes : List String} {codeList : Id}

/-- The clones of a whole code list, flagged and with their parent edges. -/
noncomputable def flaggedClones (g : Graph) (label : String) (codes : List String)
    (codeList : Id) : Picture where
  properties c := (g.source? label c).map fun n => Graph.cloneProperties n c codeList (c ∈ codes)
  parent := g.CodeParent label
  link _ _ := False

theorem properties_flaggedClones (g : Graph) (label : String) (codes : List String) (codeList : Id)
    (c : String) : (flaggedClones g label codes codeList).properties c =
      (g.source? label c).map fun n => Graph.cloneProperties n c codeList (c ∈ codes) := rfl

theorem insert_hasData (n : Node) (c : String) (codeList : Id) (hasData flag : Bool) :
    (Graph.cloneProperties n c codeList hasData).insert Property.hasData (.bool flag) =
      Graph.cloneProperties n c codeList flag := by
  apply Table.ext_get?
  intro k
  rw [Table.get?_insert, Graph.get?_cloneProperties, Graph.get?_cloneProperties]
  by_cases hk : Property.hasData = k
  · subst hk
    rfl
  · have hk' : k ≠ Property.hasData := fun h => hk h.symm
    simp [hk, hk']

/-- Cloning, repeating the parent edges, unlinking and flagging. -/
theorem flaggedClones_eq :
    ((((empty.clone codeList false (g.nodesWithLabel label)).relate g.Up
      (g.idsWithLabel label)).unlink fun _ => True).setWhere (· ∈ codes) Property.hasData
        fun _ => .bool true) = flaggedClones g label codes codeList := by
  apply Picture.ext
  · funext c
    show Option.map _ ((empty.clone codeList false (g.nodesWithLabel label)).properties c) = _
    rw [properties_clone]
    show Option.map _ (Option.map _ (g.source? label c)) = Option.map _ (g.source? label c)
    cases g.source? label c with
    | none => rfl
    | some n =>
        simp only [Option.map_some]
        by_cases hc : c ∈ codes
        · rw [if_pos hc, insert_hasData, decide_eq_true hc]
        · rw [if_neg hc, decide_eq_false hc]
  · funext c p
    show ((empty.clone codeList false (g.nodesWithLabel label)).parent c p ∨ _) =
      g.CodeParent label c p
    -- a clone is linked to the sources with its code, so the edges are those between such sources
    rw [parent_clone]
    simp only [link_clone]
    apply propext
    constructor
    · rintro (h | ⟨s, -, t, hup, hc | ⟨n, hn, rfl, rfl⟩, hp | ⟨m, hm, rfl, rfl⟩⟩)
      · exact h.elim
      · exact hc.elim
      · exact hc.elim
      · exact hp.elim
      · exact ⟨n, hn, m, hm, hup, rfl, rfl⟩
    · rintro ⟨n, hn, m, hm, hup, rfl, rfl⟩
      refine Or.inr ⟨n.id, List.mem_map_of_mem hn, m.id, hup, ?_, ?_⟩
      · exact Or.inr ⟨n, hn, rfl, rfl⟩
      · exact Or.inr ⟨m, hm, rfl, rfl⟩
  · funext c s
    show (_ ∧ ¬ True) = False
    simp

theorem bool?_hasData_cloneProperties (n : Node) (c : String) (codeList : Id) (hasData : Bool) :
    ((Graph.cloneProperties n c codeList hasData).get? Property.hasData).bind Json.bool? =
      some hasData := by
  rw [Graph.get?_cloneProperties, if_neg (by decide), if_pos rfl]
  rfl

theorem hasData_flaggedClones {c : String} :
    (flaggedClones g label codes codeList).HasData c ↔ g.CodeHasData label codes c := by
  unfold HasData Graph.CodeHasData
  rw [← Graph.source?_isSome]
  constructor
  · rintro ⟨ps, hps, hflag⟩
    obtain ⟨n, hn, rfl⟩ := Option.map_eq_some_iff.1 hps
    rw [bool?_hasData_cloneProperties] at hflag
    exact ⟨of_decide_eq_true (Option.some.inj hflag), by rw [hn]; rfl⟩
  · rintro ⟨hc, hsome⟩
    obtain ⟨n, hn⟩ := Option.isSome_iff_exists.1 hsome
    refine ⟨_, Option.map_eq_some_iff.2 ⟨n, hn, rfl⟩, ?_⟩
    rw [bool?_hasData_cloneProperties, decide_eq_true hc]

theorem marked_flaggedClones {c : String} :
    (flaggedClones g label codes codeList).Marked c ↔ g.Relevant label codes c := by
  unfold Marked Graph.Relevant
  exact exists_congr fun d => and_congr_left fun _ => hasData_flaggedClones

theorem isMarked_cloneProperties (n : Node) (c : String) (codeList : Id) (hasData : Bool) :
    isMarked (Graph.cloneProperties n c codeList hasData) = false := by
  unfold isMarked
  rw [Graph.get?_cloneProperties, if_neg (by decide), if_neg (by decide), if_neg (by decide),
    if_neg (by decide)]
  rfl

theorem isMarked_insert (ps : Properties) :
    isMarked (ps.insert Property.remain (.bool true)) = true := by
  unfold isMarked
  rw [Table.get?_insert, if_pos rfl]
  rfl

theorem erase_insert_cloneProperties (n : Node) (c : String) (codeList : Id) (hasData : Bool) :
    ((Graph.cloneProperties n c codeList hasData).insert Property.remain (.bool true)).erase
      Property.remain = Graph.cloneProperties n c codeList hasData := by
  rw [Table.erase_insert_self]
  refine Table.erase_eq_self ?_
  rw [Graph.get?_cloneProperties, if_neg (by decide), if_neg (by decide), if_neg (by decide),
    if_neg (by decide)]

open Classical in
/-- The clones that are relevant, with their parent edges. -/
noncomputable def relevantClones (g : Graph) (label : String) (codes : List String)
    (codeList : Id) : Picture where
  properties c :=
    if g.Relevant label codes c then (flaggedClones g label codes codeList).properties c else none
  parent c p := g.CodeParent label c p ∧ g.Relevant label codes c ∧ g.Relevant label codes p
  link _ _ := False

theorem properties_relevantClones {c : String} (h : g.Relevant label codes c) :
    (relevantClones g label codes codeList).properties c =
      (flaggedClones g label codes codeList).properties c := by
  unfold relevantClones
  exact if_pos h

theorem properties_relevantClones_of_not {c : String} (h : ¬ g.Relevant label codes c) :
    (relevantClones g label codes codeList).properties c = none := by
  unfold relevantClones
  exact if_neg h

theorem isSome_flaggedClones {c : String} (h : g.Relevant label codes c) :
    ((flaggedClones g label codes codeList).properties c).isSome := by
  unfold flaggedClones
  rw [Option.isSome_map]
  exact Graph.source?_isSome.2 h.source

/-- Marking sets the mark on what is relevant, and nothing else carries it. -/
theorem filter_mark_flaggedClones (c : String) :
    ((flaggedClones g label codes codeList).mark.properties c).filter isMarked =
      ((relevantClones g label codes codeList).properties c).map
        fun ps => ps.insert Property.remain (.bool true) := by
  unfold mark
  -- clones are made without marks, so what is not marked now is filtered out
  by_cases hc : g.Relevant label codes c
  · rw [properties_setWhere (marked_flaggedClones.2 hc), properties_relevantClones hc]
    cases (flaggedClones g label codes codeList).properties c with
    | none => rfl
    | some ps => exact Option.filter_some_pos (isMarked_insert ps)
  · rw [properties_setWhere_of_not fun h => hc (marked_flaggedClones.1 h),
      properties_relevantClones_of_not hc, properties_flaggedClones]
    cases g.source? label c with
    | none => rfl
    | some n =>
        refine Option.filter_some_neg ?_
        simp [isMarked_cloneProperties]

theorem stays_mark_flaggedClones {c : String} :
    (flaggedClones g label codes codeList).mark.Stays c ↔ g.Relevant label codes c := by
  unfold Stays
  simp only [← Option.filter_eq_some_iff, filter_mark_flaggedClones]
  rw [← Option.isSome_iff_exists, Option.isSome_map]
  by_cases hc : g.Relevant label codes c
  · rw [properties_relevantClones hc]
    exact ⟨fun _ => hc, fun _ => isSome_flaggedClones hc⟩
  · rw [properties_relevantClones_of_not hc]
    exact ⟨fun h => absurd h Bool.false_ne_true, fun h => absurd h hc⟩

/-- Marking, pruning and taking the marks off. -/
theorem relevantClones_eq :
    (flaggedClones g label codes codeList).mark.prune.unmark =
      relevantClones g label codes codeList := by
  apply Picture.ext
  · funext c
    show Option.map _ (((flaggedClones g label codes codeList).mark.properties c).filter _) = _
    rw [filter_mark_flaggedClones]
    by_cases hc : g.Relevant label codes c
    · rw [properties_relevantClones hc, properties_flaggedClones]
      cases g.source? label c with
      | none => rfl
      | some n =>
          simp only [Option.map_some]
          rw [erase_insert_cloneProperties]
    · rw [properties_relevantClones_of_not hc]
      rfl
  · funext c p
    show (g.CodeParent label c p ∧ _ ∧ _) = _
    rw [stays_mark_flaggedClones, stays_mark_flaggedClones]
    rfl
  · funext c s
    show (False ∧ _) = False
    simp

/-- Counting the children completes the hierarchy. -/
theorem instanceOf_eq (g : Graph) (codes : List String) (codeList : Id) :
    (relevantClones g (NodeLabel.generic codeList) codes codeList).count (fun _ => True) =
      g.instanceOf codes codeList := by
  apply Picture.ext
  · funext c
    unfold count
    rw [properties_setWhere trivial]
    by_cases hc : g.Relevant (NodeLabel.generic codeList) codes c
    · rw [properties_relevantClones hc, Graph.properties_instanceOf hc, properties_flaggedClones,
        Option.map_map]
      congr 1
      funext n
      -- the children of a relevant code are those that are relevant themselves
      have hchildren : { k | (relevantClones g (NodeLabel.generic codeList) codes
          codeList).parent k c } = g.childCodes (NodeLabel.generic codeList) codes c := by
        ext k
        exact ⟨fun h => ⟨h.1, h.2.1⟩, fun h => ⟨h.1, h.2, hc⟩⟩
      unfold childCount Graph.instanceProperties
      rw [Function.comp_apply, hchildren]
    · rw [properties_relevantClones_of_not hc, Graph.properties_instanceOf_of_not hc]
      rfl
  · rfl
  · rfl

end Picture

/-! ## The stages of a bulk build -/

namespace Graph

open Environment

variable {L : Set String} {key : HierarchyKey} {codeList : Id} {start : Graph}

theorem hierarchy_ne_generic (key : HierarchyKey) (codeList : Id) :
    NodeLabel.hierarchy key ≠ NodeLabel.generic codeList := by
  intro h
  have hchars := congrArg String.toList h
  unfold NodeLabel.hierarchy NodeLabel.generic at hchars
  simp only [String.toList_append] at hchars
  have hsecond := congrArg (fun cs : List Char => cs[1]?) hchars
  revert hsecond
  simp

theorem hierarchy_ne_data (key : HierarchyKey) : NodeLabel.hierarchy key ≠ NodeLabel.data key := by
  intro h
  have hlength := congrArg String.length h
  unfold NodeLabel.hierarchy NodeLabel.data at hlength
  simp only [String.length_append] at hlength
  have h1 : "_hierarchy_node_".length = 16 := rfl
  have h2 : "_".length = 1 := rfl
  omega

/-- The labels that a build reads are those of no hierarchy under construction, and its own
hierarchy is one of them. -/
structure Apart (L : Set String) (key : HierarchyKey) (codeList : Id) : Prop where
  own : NodeLabel.hierarchy key ∈ L
  generic : NodeLabel.generic codeList ∉ L
  data : NodeLabel.data key ∉ L

/-- A build alone reads other labels than that of its hierarchy. -/
theorem apart_alone (key : HierarchyKey) (codeList : Id) :
    Apart {NodeLabel.hierarchy key} key codeList :=
  ⟨rfl, fun h => hierarchy_ne_generic key codeList h.symm, fun h => hierarchy_ne_data key h.symm⟩

/-- A build beside another one reads other labels than those of both hierarchies. -/
theorem apart_pair {key key' : HierarchyKey} (h : NodeLabel.data key ≠ NodeLabel.hierarchy key')
    (codeList : Id) :
    Apart {NodeLabel.hierarchy key, NodeLabel.hierarchy key'} key codeList := by
  refine ⟨Or.inl rfl, fun hgeneric => ?_, fun hdata => ?_⟩
  · rcases hgeneric with hgeneric | hgeneric
    · exact hierarchy_ne_generic key codeList hgeneric.symm
    · exact hierarchy_ne_generic key' codeList hgeneric.symm
  · rcases hdata with hdata | hdata
    · exact hierarchy_ne_data key hdata.symm
    · exact h hdata

theorem records_idsWithLabel (g : Graph) (label : String) :
    g.records (g.idsWithLabel label) = g.nodesWithLabel label := by
  unfold records idsWithLabel
  rw [List.filterMap_map]
  have hnode : ∀ n ∈ g.nodesWithLabel label, (g.node? ∘ fun n => n.id) n = some n := by
    intro n hn
    exact node?_eq_some.2 ⟨rfl, (mem_nodesWithLabel.1 hn).2⟩
  rw [List.filterMap_congr hnode, List.filterMap_some]

/-- The generic nodes lie outside of the hierarchies under construction. -/
theorem Apart.outside (h : Apart L key codeList) (g : Graph) :
    ∀ id ∈ g.idsWithLabel (NodeLabel.generic codeList), ∃ n, g.node? id = some n ∧ n.label ∉ L := by
  intro id hid
  obtain ⟨ps, hps⟩ := label?_eq_some_iff.1 (mem_idsWithLabel.1 hid)
  exact ⟨⟨id, NodeLabel.generic codeList, ps⟩, node?_eq_some.2 ⟨rfl, hps⟩, h.generic⟩

/-- Only the parent edges of the sources matter. -/
theorem relate_congr {up up' : Id → Id → Prop} {sources : List Id}
    (h : ∀ s ∈ sources, ∀ t, up s t ↔ up' s t) (pic : Picture) :
    pic.relate up sources = pic.relate up' sources := by
  unfold Picture.relate
  congr 1
  funext c p
  refine propext (or_congr_right (exists_congr fun s => and_congr_right fun hs => ?_))
  exact exists_congr fun t => and_congr_left fun _ => h s hs t

variable {pic : Picture}

/-- The codes with data are those at the start. -/
theorem achieves_dataCodes {label : String} (r : Reader) (h : NodeLabel.data key ∉ L) :
    Achieves graph (building L label) (Stage L label start pic) (r.dataCodes key)
      fun codes g => codes = start.dataCodes (NodeLabel.data key) ∧ Stage L label start pic g := by
  refine achieves_ask r (stage_stable _ _ _ _) (fun _ => (stage_stable _ _ _ _).given _) fun g hg => ?_
  have hsame : g.dataCodes (NodeLabel.data key) = start.dataCodes (NodeLabel.data key) := by
    unfold dataCodes
    rw [hg.preserves.nodesWithLabel h]
  exact ⟨start.dataCodes (NodeLabel.data key), congrArg some hsame, rfl, hg⟩

variable (b : Backend)

theorem achieves_constrain (h : Apart L key codeList) :
    Achieves graph (building L (NodeLabel.hierarchy key))
      (Stage L (NodeLabel.hierarchy key) start pic) (b.constrain key)
      fun _ => Stage L (NodeLabel.hierarchy key) start pic := by
  cases b with
  | gremlin reading writing => exact Achieves.pure (stage_stable _ _ _ _) fun _ hg => hg
  | cypher retry =>
      refine achieves_change (u := id) (.cypher retry) h.own fun g hg => ?_
      refine (Effect.refl hg.sound).congr fun K _ pic _ => ?_
      unfold onlyOn
      split <;> rfl

theorem achieves_cloneList (h : Apart L key codeList) :
    Achieves graph (building L (NodeLabel.hierarchy key))
      (Stage L (NodeLabel.hierarchy key) start pic) (b.cloneList key codeList)
      fun _ => Stage L (NodeLabel.hierarchy key) start
        (pic.clone codeList false (start.nodesWithLabel (NodeLabel.generic codeList))) := by
  refine achieves_change b h.own fun g hg => ?_
  have heffect := effect_cloneNodes codeList false hg.sound h.own (h.outside g)
  rw [records_idsWithLabel, hg.preserves.nodesWithLabel h.generic] at heffect
  exact heffect

/-- Parent edges are repeated with either method. -/
theorem achieves_relateList (h : Apart L key codeList) :
    Achieves graph (building L (NodeLabel.hierarchy key))
      (Stage L (NodeLabel.hierarchy key) start pic) (b.relateList key codeList)
      fun _ => Stage L (NodeLabel.hierarchy key) start
        (pic.relate start.Up (start.idsWithLabel (NodeLabel.generic codeList))) := by
  have hchange : ∀ g, Stage L (NodeLabel.hierarchy key) start pic g →
      Effect L g (g.mutate (.relateList key codeList)).2 (onlyOn (NodeLabel.hierarchy key)
        (Picture.relate start.Up (start.idsWithLabel (NodeLabel.generic codeList)))) := by
    intro g hg
    have hids : g.idsWithLabel (NodeLabel.generic codeList) =
        start.idsWithLabel (NodeLabel.generic codeList) := by
      unfold idsWithLabel
      rw [hg.preserves.nodesWithLabel h.generic]
    refine (effect_relate hg.sound h.own (h.outside g)).congr fun K _ pic _ => ?_
    rw [hids]
    unfold onlyOn
    split
    · refine relate_congr (fun s hs t => ?_) pic
      obtain ⟨ps, hps⟩ := label?_eq_some_iff.1 (mem_idsWithLabel.1 hs)
      exact hg.preserves.up s _ hps h.generic t
    · rfl
  cases b with
  | gremlin reading writing =>
      have hsend : Achieves graph (building L (NodeLabel.hierarchy key))
          (Stage L (NodeLabel.hierarchy key) start pic)
          (StoreM.call .edges (.of .gremlin (.mutation (.relateList key codeList))))
          fun _ => Stage L (NodeLabel.hierarchy key) start
            (pic.relate start.Up (start.idsWithLabel (NodeLabel.generic codeList))) :=
        Achieves.call (stage_stable _ _ _ _) (fun _ => stage_stable _ _ _ _) fun g hg =>
          mutation_does (Or.inr rfl) _ (hg.change h.own (hchange g hg))
      exact hsend.bind fun _ => Achieves.pure (stage_stable _ _ _ _) fun _ hg => hg
  | cypher retry => exact achieves_change (.cypher retry) h.own hchange

/-- Flagging is left out when there are no codes, which changes nothing. -/
theorem achieves_flagData (h : Apart L key codeList) :
    Achieves graph (building L (NodeLabel.hierarchy key))
      (Stage L (NodeLabel.hierarchy key) start pic) (b.flagData key)
      fun _ => Stage L (NodeLabel.hierarchy key) start
        (pic.setWhere (· ∈ start.dataCodes (NodeLabel.data key)) Property.hasData
          fun _ => .bool true) := by
  refine (achieves_dataCodes b.reader h.data).bind fun codes => ?_
  by_cases hempty : codes.isEmpty
  · rw [if_pos hempty]
    refine Achieves.pure (stage_stable _ _ _ _) ?_
    rintro g ⟨rfl, hg⟩
    -- there are no codes to flag
    rw [Picture.setWhere_eq_self]
    · exact hg
    · intro c
      rw [List.isEmpty_iff.1 hempty]
      exact List.not_mem_nil
  · rw [if_neg hempty]
    intro g hg
    obtain ⟨rfl, hg⟩ := hg
    exact achieves_change b h.own (fun g hg => effect_flagData _ hg.sound h.own) g hg

/-- The number of nodes of a hierarchy is the number of its codes. -/
theorem length_idsWithLabel {g : Graph} {label : String} (h : g.Shows label pic)
    (ht : Tidy L label g) :
    (g.idsWithLabel label).length = Set.ncard { c | (pic.properties c).isSome } := by
  have hcodes : { c | ∃ id ∈ g.idsWithLabel label, g.Coded label c id } =
      { c | (pic.properties c).isSome } := by
    ext c
    constructor
    · rintro ⟨id, -, hid⟩
      obtain ⟨ps, hps, -⟩ := h.properties_of_coded hid
      exact Option.isSome_iff_exists.2 ⟨ps, hps⟩
    · intro hc
      obtain ⟨ps, hps⟩ := Option.isSome_iff_exists.1 hc
      obtain ⟨id, -, hid⟩ := h.exists_coded hps
      exact ⟨id, mem_idsWithLabel.2 hid.label, hid⟩
  rw [← hcodes]
  exact ht.length_eq_ncard (g.nodup_idsWithLabel label) fun id => mem_idsWithLabel.1

theorem achieves_countNodes (r : Reader) (hL : NodeLabel.hierarchy key ∈ L) :
    Achieves graph (building L (NodeLabel.hierarchy key))
      (Stage L (NodeLabel.hierarchy key) start pic) (r.countNodes key)
      fun n g => n = (Set.ncard { c | (pic.properties c).isSome } : Nat) ∧
        Stage L (NodeLabel.hierarchy key) start pic g := by
  refine achieves_ask r (stage_stable _ _ _ _) (fun _ => (stage_stable _ _ _ _).given _) fun g hg => ?_
  have hlength := length_idsWithLabel hg.shows (hg.sound.tidy _ hL)
  refine ⟨_, rfl, ?_, hg⟩
  rw [hlength]

/-- The report of a bulk build. -/
noncomputable def bulkReport (start : Graph) (key : HierarchyKey) (codeList : Id) : BuildReport where
  key := key
  codeList := codeList
  idDriven := false
  codesWithData := (start.dataCodes (NodeLabel.data key)).length
  clonedNodes := none
  nodeCount := Set.ncard { c | ((start.instanceOf (start.dataCodes (NodeLabel.data key))
    codeList).properties c).isSome }

/-- A bulk build, alone or beside others, makes the hierarchy that is wanted of it. -/
theorem achieves_buildBulk (h : Apart L key codeList) :
    Achieves graph (building L (NodeLabel.hierarchy key))
      (Stage L (NodeLabel.hierarchy key) start Picture.empty) (b.buildBulk key codeList)
      fun report g => report = start.bulkReport key codeList ∧
        Stage L (NodeLabel.hierarchy key) start
          (start.instanceOf (start.dataCodes (NodeLabel.data key)) codeList) g := by
  unfold Backend.buildBulk
  refine (achieves_constrain b h).bind fun _ => ?_
  refine (achieves_cloneList b h).bind fun _ => ?_
  refine (achieves_relateList b h).bind fun _ => ?_
  refine (achieves_change b h.own fun g hg => effect_unlinkClones hg.sound).bind fun _ => ?_
  refine (achieves_flagData b h).bind fun _ => ?_
  rw [Picture.flaggedClones_eq]
  refine (achieves_change b h.own fun g hg => effect_markRemaining hg.sound h.own).bind fun _ => ?_
  refine (achieves_change b h.own fun g hg => effect_dropUnmarked hg.sound h.own).bind fun _ => ?_
  refine (achieves_change b h.own fun g hg => effect_clearMarks hg.sound h.own).bind fun _ => ?_
  rw [Picture.relevantClones_eq]
  refine (achieves_change b h.own fun g hg => effect_countAll hg.sound h.own).bind fun _ => ?_
  rw [Picture.instanceOf_eq]
  refine (achieves_dataCodes b.reader h.data).bind fun codes => ?_
  intro g hg
  obtain ⟨rfl, hg⟩ := hg
  refine ((achieves_countNodes b.reader h.own).bind fun n => ?_) g hg
  refine Achieves.pure ((stage_stable _ _ _ _).given _) ?_
  rintro g ⟨rfl, hg⟩
  exact ⟨rfl, hg⟩

end Graph
end InstanceHierarchy
