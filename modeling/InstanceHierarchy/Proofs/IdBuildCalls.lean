import InstanceHierarchy.Proofs.IdBuildSite

/-!
# What calls do to a site

Each kind of call that a build from ids makes is carried out on a site.  It leaves a site, keeps
nodes and links to codes, and changes the picture of every hierarchy as the call says, whose build it
may be; only the counting of children is seen in its own hierarchy alone.
-/

namespace InstanceHierarchy
namespace Graph

variable {L : Set String} {P : Plan} {g g' : Graph} {op : Operation}

/-- What a call does to a site, and to the pictures of some of the hierarchies. -/
structure Advances (L : Set String) (P : Plan) (seen : Set String) (op : Operation)
    (g g' : Graph) : Prop where
  site : Site L P g'
  kept : Kept g g'
  codes : ∀ s, g.CodeLinked P s → g'.CodeLinked P s
  shows : ∀ K ∈ seen, ∀ pic, g.Shows K pic → g'.Shows K (P.applied K op pic)

theorem Advances.of_effect {seen : Set String} {f : String → Picture → Picture} (h : Site L P g)
    (hothers : SameOthers g g') (hkept : Kept g g') (heffect : Effect L g g' f) (hseen : seen ⊆ L)
    (hf : ∀ K ∈ seen, ∀ pic, f K pic = P.applied K op pic) : Advances L P seen op g g' := by
  have hcodes : ∀ s, g'.CodeLinked P s ↔ g.CodeLinked P s := by
    intro s
    unfold CodeLinked
    rw [hothers.codes]
  refine ⟨⟨heffect.sound, h.preserves.trans heffect.preserves, ?_, fun s => ?_⟩, hkept,
    fun s => (hcodes s).2, fun K hK pic hpic => ?_⟩
  · rw [hothers _ (by decide) (by decide), h.usedBy]
  · rw [hothers.codes, hcodes]
    exact h.codes s
  · rw [← hf K hK pic]
    exact heffect.shows K (hseen hK) pic hpic

theorem Advances.mono {seen seen' : Set String} {op : Operation}
    (h : Advances L P seen op g g') (hsub : seen' ⊆ seen) : Advances L P seen' op g g' :=
  ⟨h.site, h.kept, h.codes, fun K hK => h.shows K (hsub hK)⟩

/-- A query advances nothing. -/
theorem advances_query (h : Site L P g) (q : Query) : Advances L P L (.query q) g g :=
  .of_effect h (.refl g) (.refl g) (.refl h.sound) (Set.Subset.refl L) fun _ _ _ => rfl

variable (hready : P.Ready L)

include hready

/-- Cloning some sources. -/
theorem advances_cloneSources (h : Site L P g) {key : HierarchyKey}
    (hL : NodeLabel.hierarchy key ∈ L) {ids : List Id} (hasData : Bool)
    (hids : ∀ s ∈ ids, ∃ n ∈ P.sources, n.id = s) :
    Advances L P L (.mutation (.cloneSources key P.codeList ids hasData)) g
      (g.mutate (.cloneSources key P.codeList ids hasData)).2 := by
  have hout := h.outside hready hids
  refine .of_effect h (sameOthers_cloneNodes g ids _ P.codeList hasData)
    (kept_cloneNodes P.codeList hasData h.sound hL hout)
    (effect_cloneNodes P.codeList hasData h.sound hL hout) (Set.Subset.refl L) fun K _ pic => ?_
  rw [h.records hready hids]
  rfl

/-- Repeating the parent edges of some sources. -/
theorem advances_relateSources (h : Site L P g) {key : HierarchyKey}
    (hL : NodeLabel.hierarchy key ∈ L) {ids : List Id}
    (hids : ∀ s ∈ ids, ∃ n ∈ P.sources, n.id = s) :
    Advances L P L (.mutation (.relateSources key ids)) g
      (g.mutate (.relateSources key ids)).2 := by
  refine .of_effect h (sameOthers_relate g ids _) (.of_nodes (nodes_relate g ids _))
    (effect_relate h.sound hL (h.outside hready hids)) (Set.Subset.refl L) fun K _ pic => ?_
  have hup : pic.relate g.Up ids = pic.relate P.start.Up ids := by
    refine relate_congr (fun s hs t => ?_) pic
    obtain ⟨n, hn, rfl⟩ := hids s hs
    exact h.up hready hn t
  exact onlyOn_congr fun _ => hup

/-- Giving some sources' clones their places, once the sources are linked to their codes. -/
theorem advances_copyOrder (h : Site L P g) {ids : List Id}
    (hids : ∀ s ∈ ids, ∃ n ∈ P.sources, n.id = s) (hlinked : ∀ s ∈ ids, g.CodeLinked P s) :
    Advances L P L (.mutation (.copyOrder P.codeList ids)) g
      (g.mutate (.copyOrder P.codeList ids)).2 := by
  have hplace : ∀ s ∈ ids, g.orderOf? P.codeList s = P.place s := by
    intro s hs
    obtain ⟨n, hn, rfl⟩ := hids s hs
    exact h.orderOf? hready hn (hlinked n.id hs)
  exact .of_effect h (.of_edges (edges_mutate_copyOrder g P.codeList ids))
    (kept_mutate_copyOrder g P.codeList ids) (effect_copyOrder h.sound (h.stray hready) hplace)
    (Set.Subset.refl L) fun _ _ _ => rfl

omit hready in
/-- Cutting the links to some sources. -/
theorem advances_unlinkSources (h : Site L P g) (ids : List Id) :
    Advances L P L (.mutation (.unlinkSources ids)) g (g.mutate (.unlinkSources ids)).2 :=
  .of_effect h (sameOthers_unlinkSources g ids) (.of_nodes rfl) (effect_unlinkSources ids h.sound)
    (Set.Subset.refl L) fun _ _ _ => rfl

/-- Linking a source to its code, which no hierarchy shows. -/
theorem advances_linkCode (h : Site L P g) {n : Node} (hn : n ∈ P.sources) :
    Advances L P L (.mutation (.linkCode P.codeList n.id n.cloneCode)) g
        (g.mutate (.linkCode P.codeList n.id n.cloneCode)).2 ∧
      (g.mutate (.linkCode P.codeList n.id n.cloneCode)).2.CodeLinked P n.id := by
  obtain ⟨hnode, hout⟩ := h.source hready hn
  have heffect := effect_linkCode n.cloneCode h.sound hready.code hnode hout
  have hnew := h.codeLinked_linkCode hready hn
  refine ⟨⟨⟨heffect.sound, h.preserves.trans heffect.preserves, ?_, fun s => ?_⟩,
    .of_nodes (nodes_linkCode _ _ _ _), fun s hs => ?_, fun K hK pic hpic => ?_⟩, hnew⟩
  · rw [← h.usedBy]
    exact edgesWithLabel_linkCode n.id n.cloneCode (by decide)
  · by_cases hs : s = n.id
    · exact Or.inr (hs ▸ hnew)
    · have hcodes := h.codes s
      unfold CodeLinked at hcodes ⊢
      rw [← targets_linkCode_of_ne n.cloneCode hs] at hcodes
      exact hcodes
  · by_cases hsn : s = n.id
    · exact hsn ▸ hnew
    · unfold CodeLinked at hs ⊢
      rw [← hs]
      exact targets_linkCode_of_ne n.cloneCode hsn
  · exact heffect.shows K hK pic hpic

omit hready in
/-- Counting the children of some nodes of a hierarchy, which no other hierarchy shows. -/
theorem advances_countChildrenOf (h : Site L P g) {label : String} (hL : label ∈ L) {ids : List Id}
    (hids : ∀ id ∈ ids, g.label? id = some label) :
    Advances L P (L \ {label}) (.mutation (.countChildrenOf ids)) g
        (g.mutate (.countChildrenOf ids)).2 ∧
      ∀ pic, g.Shows label pic → (g.mutate (.countChildrenOf ids)).2.Shows label
        (pic.count fun c => ∃ id ∈ ids, g.Coded label c id) := by
  have htest : ∀ c id, g.Coded label c id → (id ∈ ids ↔ ∃ id ∈ ids, g.Coded label c id) := by
    intro c id hc
    constructor
    · exact fun hid => ⟨id, hid, hc⟩
    · rintro ⟨a, ha, hac⟩
      exact (h.sound.tidy label hL).unique c a id hac hc ▸ ha
  have heffect := effect_countChildren h.sound hL hids htest
  refine ⟨.of_effect h (.of_edges (edges_countChildren g ids)) (countChildren_rewrites g ids).kept
    heffect Set.sdiff_subset fun K hK pic => ?_, fun pic hpic => ?_⟩
  · rw [onlyOn_of_ne _ hK.2]
    rfl
  · have hshows := heffect.shows label hL pic hpic
    rw [onlyOn_self] at hshows
    exact hshows

end Graph
end InstanceHierarchy
