import InstanceHierarchy.Proofs.Effects

/-!
# Repeating parent edges

A parent edge of a source is repeated between every clone of the source and every clone of the
parent.  Only links and the parent edges of the sources are read, and only parent edges between
clones are added, so the sources may be worked on in any order.
-/

namespace InstanceHierarchy
namespace Graph

variable {L : Set String}

/-! ## One parent edge -/

theorem up_mergeEdge {g : Graph} {x y a b : Id} :
    (g.mergeEdge EdgeLabel.hasParent x y).2.Up a b ↔ g.Up a b ∨ (x = a ∧ y = b) := by
  unfold Up
  rw [joined_mergeEdge]
  simp

theorem cloned_mergeEdge {g : Graph} {x y a b : Id} :
    (g.mergeEdge EdgeLabel.hasParent x y).2.Joined EdgeLabel.cloneOf a b ↔
      g.Joined EdgeLabel.cloneOf a b := by
  rw [joined_mergeEdge]
  exact ⟨fun h => h.resolve_right fun h => absurd h.1 (by decide), Or.inl⟩

/-- A parent edge between two nodes of a hierarchy keeps hierarchies tidy. -/
theorem Tidy.mergeParent {g : Graph} {label K : String} {x y : Id} (ht : Tidy L K g)
    (hx : g.label? x = some label) (hy : g.label? y = some label) :
    Tidy L K (g.mergeEdge EdgeLabel.hasParent x y).2 := by
  refine ht.mergeEdge (fun hK => ⟨rfl, ?_⟩) fun hK => Or.inl ⟨rfl, ?_⟩
  · exact hx.trans (hy.symm.trans hK)
  · exact hy.trans (hx.symm.trans hK)

/-- A new parent edge shows with the codes of the nodes that it joins. -/
theorem Shows.mergeParent {g : Graph} {K : String} {pic : Picture} {x y : Id} (h : g.Shows K pic)
    {f : String → String → Prop}
    (hf : ∀ d q, f d q ↔ pic.parent d q ∨ (g.Coded K d x ∧ g.Coded K q y)) :
    (g.mergeEdge EdgeLabel.hasParent x y).2.Shows K { pic with parent := f } := by
  refine ⟨fun d ps => ?_, fun d q => (hf d q).trans ?_, fun d s => ?_⟩
  · rw [nodes_mergeEdge]
    exact h.properties d ps
  · rw [h.parent]
    simp only [coded_mergeEdge, up_mergeEdge]
    constructor
    · rintro (⟨a, b, ha, hb, hup⟩ | ⟨hd, hq⟩)
      · exact ⟨a, b, ha, hb, Or.inl hup⟩
      · exact ⟨x, y, hd, hq, Or.inr ⟨rfl, rfl⟩⟩
    · rintro ⟨a, b, ha, hb, hup | ⟨rfl, rfl⟩⟩
      · exact Or.inl ⟨a, b, ha, hb, hup⟩
      · exact Or.inr ⟨ha, hb⟩
  · simp only [coded_mergeEdge, cloned_mergeEdge]
    exact h.link d s

/-- Adding a parent edge between two nodes of a hierarchy. -/
theorem effect_mergeParent {g : Graph} {label c p : String} {x y : Id} (hs : Sound L g)
    (hL : label ∈ L) (hx : g.Coded label c x) (hy : g.Coded label p y) :
    Effect L g (g.mergeEdge EdgeLabel.hasParent x y).2 (onlyOn label fun pic =>
      { pic with parent := fun d q => pic.parent d q ∨ (d = c ∧ q = p) }) := by
  have ⟨xs, hxs, _⟩ := hx
  have ⟨ys, hys, _⟩ := hy
  refine .of_onlyOn
    ⟨hs.fresh.mergeEdge _ hxs hys, fun K hK => (hs.tidy K hK).mergeParent hx.label hy.label⟩
    ⟨fun id v _ => by rw [nodes_mergeEdge], fun a v ha hv b => ?_, fun a s ⟨hj, hout⟩ => ?_⟩ hL
    (fun pic hpic => hpic.mergeParent fun d q => or_congr_right ?_)
    fun K hK hne pic hpic => hpic.mergeParent fun d q => ⟨Or.inl, fun h => h.resolve_right ?_⟩
  · -- parent edges that leave other nodes are not touched
    rw [up_mergeEdge]
    refine ⟨fun h => h.resolve_right ?_, Or.inl⟩
    rintro ⟨rfl, -⟩
    rw [hxs] at ha
    cases ha
    exact hv hL
  · simp only [label?_mergeEdge] at hout
    exact ⟨cloned_mergeEdge.1 hj, hout⟩
  · constructor
    · rintro ⟨rfl, rfl⟩
      exact ⟨hx, hy⟩
    · rintro ⟨hd, hq⟩
      exact ⟨(hd.functional hx).2, (hq.functional hy).2⟩
  · exact fun hd => hne (hd.1.functional hx).1

/-! ## The parent edges of a source -/

/-- The graph after the parent edges of some pairs. -/
theorem linkParents_cons (state : List Edge × Graph) (pair : Id × Id) (rest : List (Id × Id)) :
    ∃ created, linkParents state (pair :: rest) =
      linkParents (created, (state.2.mergeEdge EdgeLabel.hasParent pair.1 pair.2).2) rest :=
  ⟨_, rfl⟩

theorem nodes_linkParents (pairs : List (Id × Id)) (state : List Edge × Graph) :
    (linkParents state pairs).2.nodes = state.2.nodes := by
  induction pairs generalizing state with
  | nil => rfl
  | cons pair rest ih =>
      obtain ⟨created, hcons⟩ := linkParents_cons state pair rest
      rw [hcons, ih]
      exact nodes_mergeEdge state.2 EdgeLabel.hasParent pair.1 pair.2

theorem up_linkParents {pairs : List (Id × Id)} {state : List Edge × Graph} {a b : Id} :
    (linkParents state pairs).2.Up a b ↔ state.2.Up a b ∨ (a, b) ∈ pairs := by
  induction pairs generalizing state with
  | nil => simp [linkParents]
  | cons pair rest ih =>
      obtain ⟨created, hcons⟩ := linkParents_cons state pair rest
      rw [hcons, ih, up_mergeEdge, List.mem_cons, Prod.ext_iff, or_assoc, eq_comm (a := a),
        eq_comm (a := b)]

theorem cloned_linkParents {pairs : List (Id × Id)} {state : List Edge × Graph} {a s : Id} :
    (linkParents state pairs).2.Joined EdgeLabel.cloneOf a s ↔
      state.2.Joined EdgeLabel.cloneOf a s := by
  induction pairs generalizing state with
  | nil => rfl
  | cons pair rest ih =>
      obtain ⟨created, hcons⟩ := linkParents_cons state pair rest
      rw [hcons, ih, cloned_mergeEdge]

/-- Adding the parent edges of some pairs of nodes of a hierarchy. -/
theorem effect_linkParents {label : String} (pairs : List (Id × Id)) (state : List Edge × Graph)
    (hs : Sound L state.2) (hL : label ∈ L)
    (hpairs : ∀ e ∈ pairs, ∃ c p, state.2.Coded label c e.1 ∧ state.2.Coded label p e.2) :
    Effect L state.2 (linkParents state pairs).2 (onlyOn label (Picture.withParents fun c p =>
      ∃ e ∈ pairs, state.2.Coded label c e.1 ∧ state.2.Coded label p e.2)) := by
  induction pairs generalizing state with
  | nil =>
      refine .refl_onlyOn hs fun pic => ?_
      unfold Picture.withParents
      simp
  | cons pair rest ih =>
      obtain ⟨created, hcons⟩ := linkParents_cons state pair rest
      obtain ⟨c, p, hc, hp⟩ := hpairs pair List.mem_cons_self
      have hone := effect_mergeParent hs hL hc hp
      -- edges change no codes, so the pairs that are left still join nodes of the hierarchy
      have hkeep : ∀ e ∈ rest, ∃ c p,
          (state.2.mergeEdge EdgeLabel.hasParent pair.1 pair.2).2.Coded label c e.1 ∧
            (state.2.mergeEdge EdgeLabel.hasParent pair.1 pair.2).2.Coded label p e.2 := by
        intro e he
        obtain ⟨d, q, hd, hq⟩ := hpairs e (List.mem_cons_of_mem _ he)
        exact ⟨d, q, coded_mergeEdge.2 hd, coded_mergeEdge.2 hq⟩
      have hrest := ih (created, _) hone.sound hkeep
      rw [hcons]
      refine (hone.trans_onlyOn hrest).congr_onlyOn fun pic _ => ?_
      unfold Picture.withParents
      congr 1
      funext d q
      rw [or_assoc]
      refine propext (or_congr_right ?_)
      simp only [coded_mergeEdge, List.exists_mem_cons_iff]
      refine or_congr_left ⟨?_, ?_⟩
      · rintro ⟨rfl, rfl⟩
        exact ⟨hc, hp⟩
      · rintro ⟨hd, hq⟩
        exact ⟨(hd.functional hc).2, (hq.functional hp).2⟩

theorem mem_clonesOf {g : Graph} {s : Id} {label : String} {a : Id} :
    a ∈ g.clonesOf s label ↔ g.Joined EdgeLabel.cloneOf a s ∧ g.label? a = some label := by
  unfold clonesOf
  rw [List.mem_filter, mem_sources, isLabelled_iff]

theorem mem_relatePairs {g : Graph} {label : String} {s a b : Id} :
    (a, b) ∈ g.relatePairs label s ↔
      ∃ t, g.Up s t ∧ b ∈ g.clonesOf t label ∧ a ∈ g.clonesOf s label := by
  unfold relatePairs
  simp only [List.mem_flatMap, List.mem_map, mem_targets, Prod.mk.injEq]
  constructor
  · rintro ⟨t, ht, y, hy, x, hx, rfl, rfl⟩
    exact ⟨t, ht, hy, hx⟩
  · rintro ⟨t, ht, hy, hx⟩
    exact ⟨t, ht, b, hy, a, hx, rfl, rfl⟩

/-- The pairs that a source asks for, by codes. -/
theorem asked_iff {g : Graph} {label : String} {pic : Picture} (h : g.Shows label pic) {s : Id}
    {c p : String} :
    (∃ e ∈ g.relatePairs label s, g.Coded label c e.1 ∧ g.Coded label p e.2) ↔
      ∃ t, g.Up s t ∧ pic.link c s ∧ pic.link p t := by
  simp only [h.link]
  constructor
  · rintro ⟨⟨a, b⟩, he, ha, hb⟩
    obtain ⟨t, ht, hy, hx⟩ := mem_relatePairs.1 he
    exact ⟨t, ht, ⟨a, ha, (mem_clonesOf.1 hx).1⟩, b, hb, (mem_clonesOf.1 hy).1⟩
  · rintro ⟨t, ht, ⟨a, ha, hx⟩, b, hb, hy⟩
    exact ⟨(a, b), mem_relatePairs.2 ⟨t, ht, mem_clonesOf.2 ⟨hy, hb.label⟩,
      mem_clonesOf.2 ⟨hx, ha.label⟩⟩, ha, hb⟩

/-- Repeating the parent edges of one source. -/
theorem effect_relateOne {label : String} {s : Id} {state : List Edge × Graph}
    (hs : Sound L state.2) (hL : label ∈ L) :
    Effect L state.2 (linkParents state (state.2.relatePairs label s)).2
      (onlyOn label (Picture.relate state.2.Up [s])) := by
  have ht := hs.tidy label hL
  have heffect := effect_linkParents (state.2.relatePairs label s) state hs hL fun e he => by
    obtain ⟨t, -, hy, hx⟩ := mem_relatePairs.1 he
    obtain ⟨c, hc⟩ := ht.exists_code (mem_clonesOf.1 hx).2
    obtain ⟨p, hp⟩ := ht.exists_code (mem_clonesOf.1 hy).2
    exact ⟨c, p, hc, hp⟩
  refine heffect.congr_onlyOn fun pic hpic => ?_
  unfold Picture.withParents Picture.relate
  congr 1
  funext c p
  simp only [List.mem_singleton, exists_eq_left]
  exact propext (or_congr_right (asked_iff hpic))

/-- The graph after the parent edges of the first source and then of the others. -/
theorem relate_fold (label : String) (sources : List Id) (state : List Edge × Graph)
    (hs : Sound L state.2) (hL : label ∈ L)
    (hout : ∀ s ∈ sources, ∃ n, state.2.node? s = some n ∧ n.label ∉ L) :
    Effect L state.2 (sources.foldl (fun state source =>
        linkParents state (state.2.relatePairs label source)) state).2
      (onlyOn label (Picture.relate state.2.Up sources)) := by
  induction sources generalizing state with
  | nil =>
      refine .refl_onlyOn hs fun pic => ?_
      unfold Picture.relate
      simp
  | cons s rest ih =>
      rw [List.foldl_cons]
      have hone := effect_relateOne (s := s) hs hL
      -- the other sources lie outside of the hierarchies, so they are still the same
      have hkeep : ∀ x ∈ rest, ∃ n, state.2.node? x = some n ∧ n.label ∉ L ∧
          (linkParents state (state.2.relatePairs label s)).2.node? x = some n := by
        intro x hx
        obtain ⟨n, hn, hlabel⟩ := hout x (List.mem_cons_of_mem _ hx)
        have hget := node?_eq_some.1 hn
        exact ⟨n, hn, hlabel, node?_eq_some.2 ⟨hget.1, (hone.preserves.nodes x _ hlabel).2 hget.2⟩⟩
      have hrest := ih _ hone.sound fun x hx => by
        obtain ⟨n, -, hlabel, hn⟩ := hkeep x hx
        exact ⟨n, hn, hlabel⟩
      refine (hone.trans_onlyOn hrest).congr_onlyOn fun pic _ => ?_
      unfold Picture.relate
      congr 1
      funext c p
      rw [or_assoc]
      refine propext (or_congr_right ?_)
      simp only [List.mem_singleton, exists_eq_left, List.exists_mem_cons_iff]
      -- the parent edges of the other sources are still the same
      refine or_congr_right (exists_congr fun x => and_congr_right fun hx => ?_)
      obtain ⟨n, hn, hlabel, -⟩ := hkeep x hx
      refine exists_congr fun t => and_congr_left fun _ => ?_
      exact hone.preserves.up x n.vertex (node?_eq_some.1 hn).2 hlabel t

/-- Repeating the parent edges of some sources outside the hierarchies under construction. -/
theorem effect_relate {g : Graph} {label : String} {sources : List Id} (hs : Sound L g)
    (hL : label ∈ L) (hout : ∀ s ∈ sources, ∃ n, g.node? s = some n ∧ n.label ∉ L) :
    Effect L g (g.relate sources label).2 (onlyOn label (Picture.relate g.Up sources)) :=
  relate_fold label sources ([], g) hs hL hout

end Graph
end InstanceHierarchy
