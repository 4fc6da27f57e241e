import InstanceHierarchy.Proofs.Effects

/-!
# Flagging, marking and counting

The operations of a build that write properties to the nodes of one hierarchy, seen as changes of
pictures.
-/

namespace InstanceHierarchy
namespace Graph

open Relation

variable {L : Set String}

/-! ## Properties rewritten on nodes of one hierarchy -/

/-- Rewriting the properties of some nodes of one hierarchy. -/
theorem effect_rewrite {g g' : Graph} {label : String} {ids : List Id}
    {f : Id → Properties → Properties} {u : Picture → Picture} (hs : Sound L g) (hL : label ∈ L)
    (hids : ∀ id ∈ ids, g.label? id = some label)
    (hrw : Rewrites g g' fun x ps => if x ∈ ids then f x ps else ps)
    (hu : ∀ pic, g.Shows label pic → ∃ U, u pic = pic.rewrite U ∧
      ∀ c id ps, g.nodes.get? id = some ⟨label, ps⟩ → codeIn ps = some c →
        (if id ∈ ids then f id ps else ps) = U c ps) :
    Effect L g g' (onlyOn label u) := by
  have hlabel : ∀ {id v}, g.nodes.get? id = some v → id ∈ ids → v.label = label := by
    intro id v hid hmem
    have h := hids id hmem
    rw [label_of_get? hid] at h
    exact Option.some.inj h
  refine .of_onlyOn (hrw.sound hs) (hrw.preserves fun id v hid hv => ?_) hL
    (fun pic hpic => ?_) fun K _ hne pic hpic => ?_
  · exact if_neg fun hmem => hv (hlabel hid hmem ▸ hL)
  · obtain ⟨U, hval, hU⟩ := hu pic hpic
    rw [hval]
    exact hrw.shows hpic fun id ps c hid hc => hU c id ps hid hc
  · -- in the pictures of other hierarchies nothing is rewritten
    have hsame : pic.rewrite (fun _ ps => ps) = pic := by
      unfold Picture.rewrite
      simp
    rw [← hsame]
    exact hrw.shows hpic fun id ps c hid _ => if_neg fun hmem => hne (hlabel hid hmem)

/-- Setting a property on those nodes of a hierarchy whose codes pass a test. -/
theorem effect_set {g g' : Graph} {label : String} {ids : List Id} {key : String}
    {value : Id → Json} {u : Picture → Picture} (hs : Sound L g) (hL : label ∈ L)
    (hids : ∀ id ∈ ids, g.label? id = some label)
    (hrw : Rewrites g g' fun x ps => if x ∈ ids then ps.insert key (value x) else ps)
    (hu : ∀ pic, g.Shows label pic → ∃ test val, u pic = pic.setWhere test key val ∧
      ∀ c id, g.Coded label c id → (id ∈ ids ↔ test c) ∧ value id = val c) :
    Effect L g g' (onlyOn label u) := by
  refine effect_rewrite hs hL hids hrw fun pic hpic => ?_
  obtain ⟨test, val, hval, htest⟩ := hu pic hpic
  refine ⟨_, hval, fun c id ps hid hc => ?_⟩
  obtain ⟨hmem, hv⟩ := htest c id ⟨ps, hid, hc⟩
  rw [hv]
  by_cases h : id ∈ ids
  · rw [if_pos h, if_pos (hmem.1 h)]
  · rw [if_neg h, if_neg fun ht => h (hmem.2 ht)]

/-- Flagging the nodes that carry one of some codes. -/
theorem effect_flagData {g : Graph} {key : HierarchyKey} (codes : List String) (hs : Sound L g)
    (hL : NodeLabel.hierarchy key ∈ L) :
    Effect L g (g.mutate (.flagData key codes)).2 (onlyOn (NodeLabel.hierarchy key) fun pic =>
      pic.setWhere (· ∈ codes) Property.hasData fun _ => .bool true) := by
  refine effect_set hs hL ?_ (setProperties_rewrites g _ _ (by decide)) fun pic _ => ?_
  · intro id hid
    obtain ⟨code, -, hcode⟩ := mem_idsWithCodeIn.1 hid
    exact hcode.label
  · refine ⟨_, _, rfl, fun c id hc => ⟨?_, rfl⟩⟩
    rw [mem_idsWithCodeIn]
    constructor
    · rintro ⟨code, hmem, hcode⟩
      exact (hc.functional hcode).2 ▸ hmem
    · intro hmem
      exact ⟨c, hmem, hc⟩

/-! ## Marking -/

/-- Parent edges lead from the nodes of a hierarchy to nodes of it. -/
theorem Tidy.up_coded {g : Graph} {label : String} (h : Tidy L label g) {c : String} {a b : Id}
    (ha : g.Coded label c a) (hup : g.Up a b) : ∃ p, g.Coded label p b := by
  rcases h.outOf _ a b hup ha.label with ⟨-, hb⟩ | ⟨hl, -⟩
  · exact h.exists_code hb
  · exact absurd hl (by decide)

theorem Shows.parent_of_up {g : Graph} {label : String} {pic : Picture} (h : g.Shows label pic)
    {c p : String} {a b : Id} (ha : g.Coded label c a) (hb : g.Coded label p b)
    (hup : g.Up a b) : pic.parent c p :=
  (h.parent c p).2 ⟨a, b, ha, hb, hup⟩

theorem Shows.up_of_parent {g : Graph} {label : String} {pic : Picture} (h : g.Shows label pic)
    (ht : Tidy L label g) {c p : String} {a b : Id} (ha : g.Coded label c a)
    (hb : g.Coded label p b) (hp : pic.parent c p) : g.Up a b := by
  obtain ⟨a', b', ha', hb', hup⟩ := (h.parent c p).1 hp
  obtain rfl := ht.unique c a a' ha ha'
  obtain rfl := ht.unique p b b' hb hb'
  exact hup

/-- A chain that begins in a hierarchy stays in it. -/
theorem Tidy.steps_coded {g : Graph} {label : String} (h : Tidy L label g) {c : String} {n : Nat}
    {a b : Id} (ha : g.Coded label c a) (hsteps : Steps g.Up n a b) : ∃ p, g.Coded label p b := by
  induction n generalizing b with
  | zero =>
      obtain rfl : a = b := hsteps
      exact ⟨c, ha⟩
  | succ n ih =>
      obtain ⟨x, hx, hup⟩ := hsteps
      obtain ⟨q, hq⟩ := ih hx
      exact h.up_coded hq hup

/-- Chains of parent edges between nodes are chains between their codes. -/
theorem Shows.steps_iff {g : Graph} {label : String} {pic : Picture} (h : g.Shows label pic)
    (ht : Tidy L label g) {n : Nat} {c p : String} {a b : Id} (ha : g.Coded label c a)
    (hb : g.Coded label p b) : Steps g.Up n a b ↔ Steps pic.parent n c p := by
  induction n generalizing p b with
  | zero =>
      constructor
      · rintro rfl
        exact (ha.functional hb).2
      · rintro rfl
        exact ht.unique c a b ha hb
  | succ n ih =>
      constructor
      · rintro ⟨x, hx, hup⟩
        obtain ⟨q, hq⟩ := ht.steps_coded ha hx
        exact ⟨q, (ih hq).1 hx, h.parent_of_up hq hb hup⟩
      · -- each code belongs to one node, where the edges meet
        rintro ⟨q, hq, hp⟩
        obtain ⟨x, y, hx, hy, hup⟩ := (h.parent q p).1 hp
        obtain rfl := ht.unique p y b hy hb
        exact ⟨x, (ih hx).2 hq, hup⟩

theorem Shows.chain_iff {g : Graph} {label : String} {pic : Picture} (h : g.Shows label pic)
    (ht : Tidy L label g) {c p : String} {a b : Id} (ha : g.Coded label c a)
    (hb : g.Coded label p b) :
    ReflTransGen g.Up a b ↔ ReflTransGen pic.parent c p := by
  rw [reflTransGen_iff_steps, reflTransGen_iff_steps]
  exact exists_congr fun n => h.steps_iff ht ha hb

theorem mem_idsWithFlag {g : Graph} {label : String} {pic : Picture} (h : g.Shows label pic)
    {c : String} {id : Id} (hc : g.Coded label c id) (ht : Tidy L label g) :
    id ∈ g.idsWithFlag label Property.hasData ↔ pic.HasData c := by
  rw [mem_idsWithFlag_iff]
  constructor
  · rintro ⟨ps, hid, hflag⟩
    obtain ⟨ps', hps, hid'⟩ := h.properties_of_coded hc
    rw [hid] at hid'
    cases hid'
    exact ⟨ps, hps, hflag⟩
  · rintro ⟨ps, hps, hflag⟩
    obtain ⟨a, ha, hca⟩ := h.exists_coded hps
    obtain rfl := ht.unique c id a hc hca
    exact ⟨ps, ha, hflag⟩

theorem coded_of_flag {g : Graph} {label flag : String} {id : Id} (ht : Tidy L label g)
    (h : id ∈ g.idsWithFlag label flag) : ∃ c, g.Coded label c id := by
  obtain ⟨ps, hid, -⟩ := mem_idsWithFlag_iff.1 h
  obtain ⟨c, hc⟩ := ht.coded id ps hid
  exact ⟨c, ps, hid, hc⟩

/-- The nodes that are marked are those of the hierarchy whose codes are marked in the picture. -/
theorem mem_marked_iff {g : Graph} {label : String} {pic : Picture} (h : g.Shows label pic)
    (ht : Tidy L label g) {c : String} {id : Id} (hc : g.Coded label c id) :
    id ∈ g.idsWithFlag label Property.hasData ++
        g.ancestors (g.idsWithFlag label Property.hasData) ↔ pic.Marked c := by
  rw [List.mem_append, mem_ancestors]
  constructor
  · rintro (hmem | ⟨s, hmem, hchain⟩)
    · exact ⟨c, (mem_idsWithFlag h hc ht).1 hmem, .refl⟩
    · obtain ⟨d, hd⟩ := coded_of_flag ht hmem
      exact ⟨d, (mem_idsWithFlag h hd ht).1 hmem, (h.chain_iff ht hd hc).1 hchain.to_reflTransGen⟩
  · rintro ⟨d, hdata, hchain⟩
    have ⟨ps, hps, _⟩ := hdata
    obtain ⟨s, -, hs⟩ := h.exists_coded hps
    have hmem := (mem_idsWithFlag h hs ht).2 hdata
    have hup := (h.chain_iff ht hs hc).2 hchain
    -- what has data is listed itself, for the search finds only what is an edge away or more
    rcases reflTransGen_iff_eq_or_transGen.1 hup with rfl | hup
    · exact Or.inl hmem
    · exact Or.inr ⟨s, hmem, hup⟩

theorem label_of_mem_marked {g : Graph} {label : String} (ht : Tidy L label g) {id : Id}
    (h : id ∈ g.idsWithFlag label Property.hasData ++
      g.ancestors (g.idsWithFlag label Property.hasData)) : g.label? id = some label := by
  rw [List.mem_append, mem_ancestors] at h
  rcases h with hmem | ⟨s, hmem, hchain⟩
  · obtain ⟨c, hc⟩ := coded_of_flag ht hmem
    exact hc.label
  · obtain ⟨d, hd⟩ := coded_of_flag ht hmem
    have hcoded : ∃ c, g.Coded label c id := by
      induction hchain with
      | single hup => exact ht.up_coded hd hup
      | tail _ hup ih =>
          obtain ⟨q, hq⟩ := ih
          exact ht.up_coded hq hup
    obtain ⟨c, hc⟩ := hcoded
    exact hc.label

/-- Marking the nodes that have data, and their ancestors. -/
theorem effect_markRemaining {g : Graph} {key : HierarchyKey} (hs : Sound L g)
    (hL : NodeLabel.hierarchy key ∈ L) :
    Effect L g (g.mutate (.markRemaining key)).2
      (onlyOn (NodeLabel.hierarchy key) Picture.mark) := by
  have ht := hs.tidy _ hL
  refine effect_set hs hL (fun id hid => label_of_mem_marked ht hid)
    (setProperties_rewrites g _ _ (by decide)) fun pic hpic => ?_
  exact ⟨pic.Marked, _, rfl, fun c id hc => ⟨mem_marked_iff hpic ht hc, rfl⟩⟩

/-- Taking the marks off. -/
theorem effect_clearMarks {g : Graph} {key : HierarchyKey} (hs : Sound L g)
    (hL : NodeLabel.hierarchy key ∈ L) :
    Effect L g (g.mutate (.clearMarks key)).2
      (onlyOn (NodeLabel.hierarchy key) Picture.unmark) := by
  refine effect_rewrite hs hL (fun id hid => mem_idsWithLabel.1 hid)
    (dropProperties_rewrites g _ (by decide)) fun pic _ => ?_
  refine ⟨_, rfl, fun c id ps hid _ => if_pos ?_⟩
  exact mem_idsWithLabel.2 (label_of_get? hid)

/-! ## Counting children -/

theorem Tidy.nodup_sources {g : Graph} {label : String} (ht : Tidy L label g) {b : Id}
    (hb : g.label? b = some label) : (g.sources b EdgeLabel.hasParent).Nodup := by
  rw [List.nodup_iff_count_le_one]
  intro a
  rw [count_sources]
  by_cases ha : a ∈ g.sources b EdgeLabel.hasParent
  · exact ht.once a b (ht.into _ a b (mem_sources.1 ha) hb).2
  · have hzero : ¬ 0 < g.tally EdgeLabel.hasParent a b := fun hp => ha (mem_sources.2 hp)
    omega

/-- The nodes of the hierarchy with a parent edge to a node of it. -/
theorem ncard_children {g : Graph} {label : String} (ht : Tidy L label g) {b : Id}
    (hb : g.label? b = some label) :
    Set.ncard { a | g.label? a = some label ∧ g.Up a b } =
      (g.sources b EdgeLabel.hasParent).length := by
  -- every child has one edge, so none is listed twice
  rw [← List.toFinset_card_of_nodup (ht.nodup_sources hb), ← Set.ncard_coe_finset]
  congr 1
  ext a
  simp only [Set.mem_ofPred_eq, List.coe_toFinset, mem_sources]
  exact ⟨fun h => h.2, fun h => ⟨(ht.into _ a b h hb).2, h⟩⟩

/-- The children of a node are counted once each. -/
theorem length_sources {g : Graph} {label : String} {pic : Picture} (h : g.Shows label pic)
    (ht : Tidy L label g) {c : String} {id : Id} (hc : g.Coded label c id) :
    (g.sources id EdgeLabel.hasParent).length = Set.ncard { k | pic.parent k c } := by
  have hlabel : ∀ a ∈ g.sources id EdgeLabel.hasParent, g.label? a = some label :=
    fun a ha => (ht.into _ a id (mem_sources.1 ha) hc.label).2
  have hcodes : { k | ∃ a ∈ g.sources id EdgeLabel.hasParent, g.Coded label k a } =
      { k | pic.parent k c } := by
    ext k
    constructor
    · rintro ⟨a, ha, hk⟩
      exact h.parent_of_up hk hc (mem_sources.1 ha)
    · intro hk
      obtain ⟨a, b, ha, hb, hup⟩ := (h.parent k c).1 hk
      obtain rfl := ht.unique c b id hb hc
      exact ⟨a, mem_sources.2 hup, ha⟩
  rw [← hcodes]
  exact ht.length_eq_ncard (ht.nodup_sources hc.label) hlabel

/-- Counting the children of some nodes of a hierarchy. -/
theorem effect_countChildren {g : Graph} {label : String} {ids : List Id} {test : String → Prop}
    (hs : Sound L g) (hL : label ∈ L) (hids : ∀ id ∈ ids, g.label? id = some label)
    (htest : ∀ c id, g.Coded label c id → (id ∈ ids ↔ test c)) :
    Effect L g (g.countChildren ids) (onlyOn label (Picture.count test)) := by
  refine effect_set hs hL hids (countChildren_rewrites g ids) fun pic hpic => ?_
  refine ⟨test, pic.childCount, rfl, fun c id hc => ⟨htest c id hc, ?_⟩⟩
  unfold childCount Picture.childCount
  rw [length_sources hpic (hs.tidy _ hL) hc]

/-- Counting the children of all nodes of a hierarchy. -/
theorem effect_countAll {g : Graph} {key : HierarchyKey} (hs : Sound L g)
    (hL : NodeLabel.hierarchy key ∈ L) :
    Effect L g (g.mutate (.countChildren key)).2
      (onlyOn (NodeLabel.hierarchy key) (Picture.count fun _ => True)) := by
  refine effect_countChildren hs hL (fun id hid => mem_idsWithLabel.1 hid) fun c id hc => ?_
  exact iff_of_true (mem_idsWithLabel.2 hc.label) trivial

end Graph
end InstanceHierarchy
