import InstanceHierarchy.Proofs.Effects

/-!
# Pruning and cutting

The operations of a build that remove something: the nodes of one hierarchy that are not marked, and
links, either all that leave one hierarchy or all that lead to some sources.
-/

namespace InstanceHierarchy
namespace Graph

variable {L : Set String}

/-! ## Removing nodes -/

/-- What is left when the nodes of a list are removed with their edges. -/
theorem joined_removeNodes {g : Graph} {ids : List Id} {l : String} {a b : Id} :
    (ids.foldl removeNode g).Joined l a b ↔ g.Joined l a b ∧ a ∉ ids ∧ b ∉ ids := by
  unfold Joined
  rw [tally_removeNodes]
  by_cases h : a ∈ ids ∨ b ∈ ids
  · rw [if_pos h]
    constructor
    · intro hlt
      omega
    · rintro ⟨-, ha, hb⟩
      exact absurd h (by tauto)
  · rw [if_neg h]
    tauto

theorem get?_removeNodes_iff {g : Graph} {ids : List Id} {id : Id} {v : Vertex} :
    (ids.foldl removeNode g).nodes.get? id = some v ↔ g.nodes.get? id = some v ∧ id ∉ ids := by
  rw [get?_removeNodes]
  by_cases h : id ∈ ids
  · simp [h]
  · simp [h]

theorem label_removeNodes_iff {g : Graph} {ids : List Id} {id : Id} {l : String} :
    (ids.foldl removeNode g).label? id = some l ↔ g.label? id = some l ∧ id ∉ ids := by
  rw [label?_eq_some_iff, label?_eq_some_iff]
  simp only [get?_removeNodes_iff, exists_and_right]

theorem coded_removeNodes_iff {g : Graph} {ids : List Id} {l c : String} {id : Id} :
    (ids.foldl removeNode g).Coded l c id ↔ g.Coded l c id ∧ id ∉ ids := by
  unfold Coded
  simp only [get?_removeNodes_iff]
  constructor
  · rintro ⟨ps, ⟨hps, hid⟩, hc⟩
    exact ⟨⟨ps, hps, hc⟩, hid⟩
  · rintro ⟨⟨ps, hps, hc⟩, hid⟩
    exact ⟨ps, ⟨hps, hid⟩, hc⟩

/-- Removing nodes keeps hierarchies tidy. -/
theorem Tidy.removeNodes {g : Graph} {K : String} (ht : Tidy L K g) (ids : List Id) :
    Tidy L K (ids.foldl removeNode g) := by
  constructor
  · intro id ps hid
    exact ht.coded id ps (get?_removeNodes_iff.1 hid).1
  · intro c a b ha hb
    exact ht.unique c a b (coded_removeNodes_iff.1 ha).1 (coded_removeNodes_iff.1 hb).1
  · intro l a b hj hb
    obtain ⟨hj, ha, -⟩ := joined_removeNodes.1 hj
    obtain ⟨hl, hlabel⟩ := ht.into l a b hj (label_removeNodes_iff.1 hb).1
    exact ⟨hl, label_removeNodes_iff.2 ⟨hlabel, ha⟩⟩
  · intro l a b hj ha
    obtain ⟨hj, -, hb⟩ := joined_removeNodes.1 hj
    rcases ht.outOf l a b hj (label_removeNodes_iff.1 ha).1 with ⟨hl, hlabel⟩ | ⟨hl, hout⟩
    · exact Or.inl ⟨hl, label_removeNodes_iff.2 ⟨hlabel, hb⟩⟩
    · exact Or.inr ⟨hl, fun M hM h => hout M hM (label_removeNodes_iff.1 h).1⟩
  · intro a b ha
    rw [tally_removeNodes]
    split
    · omega
    · exact ht.once a b (label_removeNodes_iff.1 ha).1

/-- The ids of the nodes of a hierarchy that are not marked. -/
def unmarkedIds (g : Graph) (label : String) : List Id :=
  ((g.nodesWithLabel label).filter fun n => n.bool? Property.remain ≠ some true).map (·.id)

theorem mem_unmarkedIds {g : Graph} {label : String} {id : Id} :
    id ∈ g.unmarkedIds label ↔
      ∃ ps, g.nodes.get? id = some ⟨label, ps⟩ ∧ ¬ Picture.isMarked ps = true := by
  unfold unmarkedIds Picture.isMarked
  rw [List.mem_map]
  constructor
  · rintro ⟨n, hn, rfl⟩
    obtain ⟨hn, hmark⟩ := List.mem_filter.1 hn
    obtain ⟨rfl, hget⟩ := mem_nodesWithLabel.1 hn
    refine ⟨n.properties, hget, ?_⟩
    rw [decide_eq_true_eq]
    exact of_decide_eq_true hmark
  · rintro ⟨ps, hps, hmark⟩
    rw [decide_eq_true_eq] at hmark
    exact ⟨⟨id, label, ps⟩, List.mem_filter.2
      ⟨mem_nodesWithLabel.2 ⟨rfl, hps⟩, decide_eq_true hmark⟩, rfl⟩

theorem label_of_mem_unmarkedIds {g : Graph} {label : String} {id : Id}
    (h : id ∈ g.unmarkedIds label) : g.label? id = some label := by
  obtain ⟨ps, hps, -⟩ := mem_unmarkedIds.1 h
  exact label_of_get? hps

theorem stays_iff {g : Graph} {label : String} {pic : Picture} (h : g.Shows label pic)
    {c : String} {id : Id} (hc : g.Coded label c id) : pic.Stays c ↔ id ∉ g.unmarkedIds label := by
  obtain ⟨ps, hps, hid⟩ := h.properties_of_coded hc
  have hmem : id ∈ g.unmarkedIds label ↔ ¬ Picture.isMarked ps = true := by
    refine Iff.trans mem_unmarkedIds ⟨?_, fun hmark => ⟨ps, hid, hmark⟩⟩
    rintro ⟨ps', hps', hmark⟩
    rw [hid] at hps'
    cases hps'
    exact hmark
  rw [hmem, not_not]
  constructor
  · rintro ⟨ps', hps', hmark⟩
    rw [hps] at hps'
    cases hps'
    exact hmark
  · intro hmark
    exact ⟨ps, hps, hmark⟩

/-- The hierarchy that loses its unmarked nodes is pruned. -/
theorem Shows.removeUnmarked {g : Graph} {label : String} {pic : Picture}
    (h : g.Shows label pic) (hs : Sound L g) (hL : label ∈ L) :
    ((g.unmarkedIds label).foldl removeNode g).Shows label pic.prune := by
  have ht := hs.tidy label hL
  constructor
  · intro c ps
    show (pic.properties c).filter Picture.isMarked = some ps ↔ _
    rw [Option.filter_eq_some_iff, h.properties]
    simp only [get?_removeNodes_iff]
    constructor
    · rintro ⟨⟨id, hid, hc⟩, hmark⟩
      have hstay : pic.Stays c := ⟨ps, (h.properties c ps).2 ⟨id, hid, hc⟩, hmark⟩
      exact ⟨id, ⟨hid, (stays_iff h ⟨ps, hid, hc⟩).1 hstay⟩, hc⟩
    · rintro ⟨id, ⟨hid, hmem⟩, hc⟩
      refine ⟨⟨id, hid, hc⟩, ?_⟩
      by_contra hmark
      exact hmem (mem_unmarkedIds.2 ⟨ps, hid, hmark⟩)
  · intro c p
    show pic.parent c p ∧ pic.Stays c ∧ pic.Stays p ↔ _
    rw [h.parent]
    simp only [coded_removeNodes_iff, Up, joined_removeNodes]
    constructor
    · rintro ⟨⟨a, b, ha, hb, hup⟩, hc, hp⟩
      have ha' := (stays_iff h ha).1 hc
      have hb' := (stays_iff h hb).1 hp
      exact ⟨a, b, ⟨ha, ha'⟩, ⟨hb, hb'⟩, hup, ha', hb'⟩
    · rintro ⟨a, b, ⟨ha, ha'⟩, ⟨hb, hb'⟩, hup, -⟩
      exact ⟨⟨a, b, ha, hb, hup⟩, (stays_iff h ha).2 ha', (stays_iff h hb).2 hb'⟩
  · intro c s
    show pic.link c s ∧ pic.Stays c ↔ _
    rw [h.link]
    simp only [coded_removeNodes_iff, joined_removeNodes]
    constructor
    · rintro ⟨⟨a, ha, hj⟩, hc⟩
      have ha' := (stays_iff h ha).1 hc
      refine ⟨a, ⟨ha, ha'⟩, hj, ha', fun hs => ?_⟩
      -- a link leads out of the hierarchies, so its source is not removed
      exact ht.link_out hj ha.label label hL (label_of_mem_unmarkedIds hs)
    · rintro ⟨a, ⟨ha, ha'⟩, hj, -⟩
      exact ⟨⟨a, ha, hj⟩, (stays_iff h ha).2 ha'⟩

/-- Other hierarchies do not see that nodes of one are removed. -/
theorem Shows.removeOthers {g : Graph} {label K : String} {pic : Picture} (h : g.Shows K pic)
    (hs : Sound L g) (hL : label ∈ L) (hK : K ∈ L) (hne : K ≠ label) {ids : List Id}
    (hids : ∀ id ∈ ids, g.label? id = some label) :
    (ids.foldl removeNode g).Shows K pic := by
  -- a node has one label, so no node of another hierarchy is removed
  have hout : ∀ {id}, g.label? id = some K → id ∉ ids := by
    intro id hid hmem
    rw [hids id hmem] at hid
    exact hne (Option.some.inj hid).symm
  constructor
  · intro c ps
    rw [h.properties]
    simp only [get?_removeNodes_iff]
    constructor
    · rintro ⟨id, hid, hc⟩
      exact ⟨id, ⟨hid, hout (label_of_get? hid)⟩, hc⟩
    · rintro ⟨id, ⟨hid, -⟩, hc⟩
      exact ⟨id, hid, hc⟩
  · intro c p
    rw [h.parent]
    simp only [coded_removeNodes_iff, Up, joined_removeNodes]
    constructor
    · rintro ⟨a, b, ha, hb, hup⟩
      exact ⟨a, b, ⟨ha, hout ha.label⟩, ⟨hb, hout hb.label⟩, hup, hout ha.label, hout hb.label⟩
    · rintro ⟨a, b, ⟨ha, -⟩, ⟨hb, -⟩, hup, -⟩
      exact ⟨a, b, ha, hb, hup⟩
  · intro c s
    rw [h.link]
    simp only [coded_removeNodes_iff, joined_removeNodes]
    constructor
    · rintro ⟨a, ha, hj⟩
      refine ⟨a, ⟨ha, hout ha.label⟩, hj, hout ha.label, fun hmem => ?_⟩
      exact (hs.tidy K hK).link_out hj ha.label label hL (hids s hmem)
    · rintro ⟨a, ⟨ha, -⟩, hj, -⟩
      exact ⟨a, ha, hj⟩

/-- Removing the nodes that are not marked. -/
theorem effect_dropUnmarked {g : Graph} {key : HierarchyKey} (hs : Sound L g)
    (hL : NodeLabel.hierarchy key ∈ L) :
    Effect L g (g.mutate (.dropUnmarked key)).2
      (onlyOn (NodeLabel.hierarchy key) Picture.prune) := by
  show Effect L g ((g.unmarkedIds (NodeLabel.hierarchy key)).foldl removeNode g) _
  generalize NodeLabel.hierarchy key = label at hL ⊢
  have hids : ∀ id ∈ g.unmarkedIds label, g.label? id = some label :=
    fun _ hid => label_of_mem_unmarkedIds hid
  have hne : ∀ {id v}, g.nodes.get? id = some v → v.label ∉ L → id ∉ g.unmarkedIds label := by
    intro id v hid hv hmem
    have hlabel := hids id hmem
    rw [label_of_get? hid] at hlabel
    cases hlabel
    exact hv hL
  refine .of_onlyOn ⟨?_, fun K hK => (hs.tidy K hK).removeNodes _⟩ ⟨?_, ?_, ?_⟩ hL
    (fun pic hpic => hpic.removeUnmarked hs hL) fun K hK hne pic hpic =>
      hpic.removeOthers hs hL hK hne hids
  · refine hs.fresh.of_grows (.of_eq (supply_removeNodes g _)) ?_ ?_
    · intro id _ hid
      rw [get?_removeNodes, hid]
      split <;> rfl
    · intro l a b hj
      exact Or.inl (joined_removeNodes.1 hj).1
  · intro id v hv
    rw [get?_removeNodes_iff]
    exact ⟨fun h => h.1, fun h => ⟨h, hne h hv⟩⟩
  · intro a v ha hv b
    unfold Up
    rw [joined_removeNodes]
    refine ⟨fun h => h.1, fun h => ⟨h, hne ha hv, fun hmem => ?_⟩⟩
    -- parent edges lead to nodes of the hierarchy from nodes of it only
    have hlabel := ((hs.tidy label hL).into _ a b h (hids b hmem)).2
    rw [label_of_get? ha] at hlabel
    cases hlabel
    exact hv hL
  · rintro a s ⟨hj, hout⟩
    obtain ⟨hj, ha, -⟩ := joined_removeNodes.1 hj
    exact ⟨hj, fun K hK hlabel => hout K hK (label_removeNodes_iff.2 ⟨hlabel, ha⟩)⟩

/-! ## Cutting links -/

theorem joined_dropEdges {g : Graph} {l : String} {test : StoredEdge → Bool}
    {p : Id → Id → Bool} (htest : ∀ e, test e = p e.source e.target) {label : String} {a b : Id} :
    (g.dropEdges l test).Joined label a b ↔
      g.Joined label a b ∧ ¬ (label = l ∧ p a b = true) := by
  unfold Joined
  rw [tally_dropEdges g l test p htest]
  split
  · rename_i h
    simp [h]
  · rename_i h
    simp [h]

/-- Cutting links of the hierarchies under construction. -/
theorem effect_dropLinks {g : Graph} {test : StoredEdge → Bool} (p : Id → Id → Bool)
    (htest : ∀ e, test e = p e.source e.target) (cut : String → Id → Prop) (hs : Sound L g)
    (hcut : ∀ K ∈ L, ∀ c a s, g.Coded K c a → (p a s = true ↔ cut K s)) :
    Effect L g (g.dropEdges EdgeLabel.cloneOf test) fun K => Picture.unlink (cut K) := by
  -- parent edges are no links
  have hparent : ∀ {a b}, (g.dropEdges EdgeLabel.cloneOf test).Up a b ↔ g.Up a b := by
    intro a b
    unfold Up
    rw [joined_dropEdges htest]
    exact ⟨fun h => h.1, fun h => ⟨h, fun hl => absurd hl.1 (by decide)⟩⟩
  refine ⟨⟨?_, fun K hK => ?_⟩, ⟨fun _ _ _ => Iff.rfl, fun a _ _ _ b => hparent,
    fun a s hstray => ⟨((joined_dropEdges htest).1 hstray.1).1, hstray.2⟩⟩,
    fun K hK pic hpic => ?_⟩
  · refine hs.fresh.of_grows (.of_eq rfl) (fun _ _ hid => hid) fun l a b hj => ?_
    exact Or.inl ((joined_dropEdges htest).1 hj).1
  · have ht := hs.tidy K hK
    refine ⟨ht.coded, ht.unique, ?_, ?_, ?_⟩
    · intro l a b hj hb
      exact ht.into l a b ((joined_dropEdges htest).1 hj).1 hb
    · intro l a b hj ha
      exact ht.outOf l a b ((joined_dropEdges htest).1 hj).1 ha
    · intro a b ha
      rw [tally_dropEdges g _ test p htest, if_neg]
      · exact ht.once a b ha
      · exact fun h => absurd h.1 (by decide)
  · refine ⟨hpic.properties, ?_, ?_⟩
    · intro c q
      simp only [hparent]
      exact hpic.parent c q
    · intro c s
      show pic.link c s ∧ ¬ cut K s ↔ _
      rw [hpic.link]
      simp only [joined_dropEdges htest, true_and]
      constructor
      · rintro ⟨⟨a, ha, hj⟩, hkeep⟩
        exact ⟨a, ha, hj, fun hp => hkeep ((hcut K hK c a s ha).1 hp)⟩
      · rintro ⟨a, ha, hj, hkeep⟩
        exact ⟨⟨a, ha, hj⟩, fun h => hkeep ((hcut K hK c a s ha).2 h)⟩

/-- Cutting all links of one hierarchy. -/
theorem effect_unlinkClones {g : Graph} {key : HierarchyKey} (hs : Sound L g) :
    Effect L g (g.mutate (.unlinkClones key)).2
      (onlyOn (NodeLabel.hierarchy key) (Picture.unlink fun _ => True)) := by
  have heffect := effect_dropLinks (fun a _ => g.isLabelled a (NodeLabel.hierarchy key))
    (fun e => (rfl : g.isLabelled e.source (NodeLabel.hierarchy key) = _))
    (fun K _ => K = NodeLabel.hierarchy key) hs ?_
  · refine heffect.congr fun K _ pic _ => ?_
    by_cases hK : K = NodeLabel.hierarchy key
    · subst hK
      simp
    · rw [onlyOn_of_ne _ hK]
      simp [Picture.unlink, hK]
  · intro K _ c a s ha
    rw [isLabelled_iff, ha.label]
    exact ⟨fun h => Option.some.inj h, fun h => congrArg some h⟩

/-- Cutting all links to some sources, whatever hierarchy they are of. -/
theorem effect_unlinkSources {g : Graph} (ids : List Id) (hs : Sound L g) :
    Effect L g (g.mutate (.unlinkSources ids)).2 fun _ => Picture.unlink (· ∈ ids) :=
  effect_dropLinks (fun _ s => s ∈ ids) (fun _ => rfl) (fun _ s => s ∈ ids) hs
    fun _ _ _ _ _ _ => decide_eq_true_iff

end Graph
end InstanceHierarchy
