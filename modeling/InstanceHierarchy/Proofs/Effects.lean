import InstanceHierarchy.Proofs.Picture

/-!
# Effects of single changes

How effects compose, and the effects of the two kinds of change that leave all edges alone or all
nodes alone: properties rewritten node by node, and edges removed or added.
-/

namespace InstanceHierarchy
namespace Graph

variable {L : Set String}

/-! ## Composition -/

theorem Preserves.refl (L : Set String) (g : Graph) : Preserves L g g :=
  ⟨fun _ _ _ => Iff.rfl, fun _ _ _ _ _ => Iff.rfl, fun _ _ h => h⟩

theorem Preserves.trans {g g' g'' : Graph} (h : Preserves L g g') (h' : Preserves L g' g'') :
    Preserves L g g'' := by
  constructor
  · intro id v hv
    exact (h'.nodes id v hv).trans (h.nodes id v hv)
  · intro a v hget hv b
    have hget' : g'.nodes.get? a = some v := (h.nodes a v hv).2 hget
    exact (h'.up a v hget' hv b).trans (h.up a v hget hv b)
  · intro a s hs
    exact h.stray a s (h'.stray a s hs)

/-- A preserved graph lists the same nodes with a label that is not under construction. -/
theorem Preserves.nodesWithLabel {g g' : Graph} (h : Preserves L g g') {label : String}
    (hl : label ∉ L) : g'.nodesWithLabel label = g.nodesWithLabel label :=
  nodesWithLabel_congr fun id v hv => h.nodes id v (hv ▸ hl)

theorem Preserves.coded {g g' : Graph} (h : Preserves L g g') {label : String} (hl : label ∉ L)
    (code : String) (id : Id) : g'.Coded label code id ↔ g.Coded label code id := by
  unfold Coded
  constructor
  · rintro ⟨ps, hps, hc⟩
    exact ⟨ps, (h.nodes id ⟨label, ps⟩ hl).1 hps, hc⟩
  · rintro ⟨ps, hps, hc⟩
    exact ⟨ps, (h.nodes id ⟨label, ps⟩ hl).2 hps, hc⟩

theorem Preserves.label {g g' : Graph} (h : Preserves L g g') {label : String} (hl : label ∉ L)
    (id : Id) : g'.label? id = some label ↔ g.label? id = some label := by
  rw [label?_eq_some_iff, label?_eq_some_iff]
  constructor
  · rintro ⟨ps, hps⟩
    exact ⟨ps, (h.nodes id ⟨label, ps⟩ hl).1 hps⟩
  · rintro ⟨ps, hps⟩
    exact ⟨ps, (h.nodes id ⟨label, ps⟩ hl).2 hps⟩

theorem Effect.refl {g : Graph} (h : Sound L g) : Effect L g g fun _ => id :=
  ⟨h, .refl L g, fun _ _ _ hs => hs⟩

theorem Effect.trans {g g' g'' : Graph} {f f' : String → Picture → Picture}
    (h : Effect L g g' f) (h' : Effect L g' g'' f') :
    Effect L g g'' fun K pic => f' K (f K pic) :=
  ⟨h'.sound, h.preserves.trans h'.preserves,
    fun K hK pic hs => h'.shows K hK _ (h.shows K hK pic hs)⟩

theorem Effect.congr {g g' : Graph} {f f' : String → Picture → Picture} (h : Effect L g g' f)
    (heq : ∀ K ∈ L, ∀ pic, g.Shows K pic → f K pic = f' K pic) : Effect L g g' f' :=
  ⟨h.sound, h.preserves, fun K hK pic hs => heq K hK pic hs ▸ h.shows K hK pic hs⟩

@[simp] theorem onlyOn_self (label : String) (u : Picture → Picture) : onlyOn label u label = u :=
  if_pos rfl

theorem onlyOn_of_ne {label K : String} (u : Picture → Picture) (h : K ≠ label) :
    onlyOn label u K = id := if_neg h

theorem onlyOn_congr {label K : String} {u u' : Picture → Picture} {pic : Picture}
    (h : K = label → u pic = u' pic) : onlyOn label u K pic = onlyOn label u' K pic := by
  by_cases hK : K = label
  · subst hK
    rw [onlyOn_self, onlyOn_self, h rfl]
  · rw [onlyOn_of_ne _ hK, onlyOn_of_ne _ hK]

section OnePicture

variable {g g' : Graph} {label : String} {u u' : Picture → Picture}

/-- A change of one picture may be described in another way that comes to the same. -/
theorem Effect.congr_onlyOn (h : Effect L g g' (onlyOn label u))
    (heq : ∀ pic, g.Shows label pic → u pic = u' pic) : Effect L g g' (onlyOn label u') :=
  h.congr fun _ _ pic hpic => onlyOn_congr fun hK => heq pic (hK ▸ hpic)

/-- What changes one picture into itself has no effect. -/
theorem Effect.refl_onlyOn (h : Sound L g) (heq : ∀ pic, u pic = pic) :
    Effect L g g (onlyOn label u) := by
  refine (Effect.refl h).congr fun K _ pic _ => ?_
  by_cases hK : K = label
  · subst hK
    rw [onlyOn_self, heq]
    rfl
  · rw [onlyOn_of_ne _ hK]

/-- A change of one picture shows in one hierarchy, and the others stay as they are. -/
theorem Effect.of_onlyOn (hsound : Sound L g') (hpreserves : Preserves L g g') (hL : label ∈ L)
    (hself : ∀ pic, g.Shows label pic → g'.Shows label (u pic))
    (hothers : ∀ K ∈ L, K ≠ label → ∀ pic, g.Shows K pic → g'.Shows K pic) :
    Effect L g g' (onlyOn label u) := by
  refine ⟨hsound, hpreserves, fun K hK pic hpic => ?_⟩
  by_cases hlabel : K = label
  · subst hlabel
    rw [onlyOn_self]
    exact hself pic hpic
  · rw [onlyOn_of_ne _ hlabel]
    exact hothers K hK hlabel pic hpic

/-- Two changes of one picture make one change. -/
theorem Effect.trans_onlyOn {g'' : Graph} (h : Effect L g g' (onlyOn label u))
    (h' : Effect L g' g'' (onlyOn label u')) :
    Effect L g g'' (onlyOn label fun pic => u' (u pic)) := by
  refine (h.trans h').congr fun K _ pic _ => ?_
  by_cases hK : K = label
  · subst hK
    simp
  · simp [onlyOn_of_ne _ hK]

end OnePicture

/-! ## Pictures are determined by the graph -/

theorem Shows.unique {g : Graph} {label : String} {pic pic' : Picture} (h : g.Shows label pic)
    (h' : g.Shows label pic') : pic = pic' := by
  apply Picture.ext
  · funext c
    apply Option.ext
    intro ps
    rw [h.properties, h'.properties]
  · funext c p
    exact propext ((h.parent c p).trans (h'.parent c p).symm)
  · funext c s
    exact propext ((h.link c s).trans (h'.link c s).symm)

/-- A label that no node carries stands for the empty hierarchy. -/
theorem shows_empty {g : Graph} {label : String} (h : ∀ id, g.label? id ≠ some label) :
    g.Shows label Picture.empty := by
  have hcoded : ∀ c a, ¬ g.Coded label c a := fun c a hc => h a hc.label
  constructor
  · intro c ps
    constructor
    · intro hps
      cases hps
    · rintro ⟨id, hid, -⟩
      exact absurd (label?_eq_some_iff.2 ⟨ps, hid⟩) (h id)
  · intro c p
    exact ⟨False.elim, fun ⟨a, _, ha, _⟩ => hcoded c a ha⟩
  · intro c s
    exact ⟨False.elim, fun ⟨a, ha, _⟩ => hcoded c a ha⟩

/-- A fresh graph is sound for hierarchies that have no nodes. -/
theorem Sound.start {g : Graph} (hfresh : g.Fresh) (h : ∀ K ∈ L, ∀ id, g.label? id ≠ some K) :
    Sound L g := by
  refine ⟨hfresh, fun K hK => ?_⟩
  have hcoded : ∀ c a, ¬ g.Coded K c a := fun c a hc => h K hK a hc.label
  constructor
  · intro id ps hid
    exact absurd (label?_eq_some_iff.2 ⟨ps, hid⟩) (h K hK id)
  · intro c a _ ha
    exact absurd ha (hcoded c a)
  · intro _ _ b _ hb
    exact absurd hb (h K hK b)
  · intro _ a _ _ ha
    exact absurd ha (h K hK a)
  · intro a _ ha
    exact absurd ha (h K hK a)

/-- Every node of a hierarchy has a code. -/
theorem Tidy.exists_code {g : Graph} {label : String} (h : Tidy L label g) {id : Id}
    (hid : g.label? id = some label) : ∃ c, g.Coded label c id := by
  obtain ⟨ps, hps⟩ := label?_eq_some_iff.1 hid
  obtain ⟨c, hc⟩ := h.coded id ps hps
  exact ⟨c, ps, hps, hc⟩

/-- Links lead out of the hierarchies under construction. -/
theorem Tidy.link_out {g : Graph} {label : String} (h : Tidy L label g) {a s : Id}
    (hj : g.Joined EdgeLabel.cloneOf a s) (ha : g.label? a = some label) :
    ∀ K ∈ L, g.label? s ≠ some K := by
  rcases h.outOf _ a s hj ha with ⟨hl, -⟩ | ⟨-, hout⟩
  · exact absurd hl (by decide)
  · exact hout

/-- The nodes of a hierarchy in a list without repetitions are as many as their codes. -/
theorem Tidy.length_eq_ncard {g : Graph} {label : String} (h : Tidy L label g) {ids : List Id}
    (hnodup : ids.Nodup) (hids : ∀ id ∈ ids, g.label? id = some label) :
    ids.length = Set.ncard { c | ∃ id ∈ ids, g.Coded label c id } := by
  have hcoded : ∀ id ∈ ids, ∃ c, g.Coded label c id := fun id hid => h.exists_code (hids id hid)
  rw [← List.toFinset_card_of_nodup hnodup, ← Set.ncard_coe_finset]
  -- each node goes to its code; codes tell nodes apart, and each code of the set has a node
  refine Set.ncard_congr (fun id hid => (hcoded id (by simpa using hid)).choose) ?_ ?_ ?_
  · intro id hid
    have hmem : id ∈ ids := by simpa using hid
    exact ⟨id, hmem, (hcoded id hmem).choose_spec⟩
  · intro a b ha hb heq
    have ha' := (hcoded a (by simpa using ha)).choose_spec
    have hb' := (hcoded b (by simpa using hb)).choose_spec
    rw [← heq] at hb'
    exact h.unique _ a b ha' hb'
  · rintro c ⟨id, hmem, hid⟩
    exact ⟨id, by simpa using hmem, ((hcoded id hmem).choose_spec.functional hid).2⟩

/-- The node with a code, where the picture has one. -/
theorem Shows.exists_coded {g : Graph} {label : String} {pic : Picture} (h : g.Shows label pic)
    {c : String} {ps : Properties} (hc : pic.properties c = some ps) :
    ∃ id, g.nodes.get? id = some ⟨label, ps⟩ ∧ g.Coded label c id := by
  obtain ⟨id, hid, hcode⟩ := (h.properties c ps).1 hc
  exact ⟨id, hid, ps, hid, hcode⟩

theorem Shows.properties_of_coded {g : Graph} {label : String} {pic : Picture}
    (h : g.Shows label pic) {c : String} {id : Id} (hc : g.Coded label c id) :
    ∃ ps, pic.properties c = some ps ∧ g.nodes.get? id = some ⟨label, ps⟩ := by
  obtain ⟨ps, hid, hcode⟩ := hc
  exact ⟨ps, (h.properties c ps).2 ⟨id, hid, hcode⟩, hid⟩

theorem Shows.properties_eq_none {g : Graph} {label : String} {pic : Picture}
    (h : g.Shows label pic) {c : String} (hfree : ∀ a, ¬ g.Coded label c a) :
    pic.properties c = none := by
  cases hps : pic.properties c with
  | none => rfl
  | some ps =>
      obtain ⟨id, -, hid⟩ := h.exists_coded hps
      exact absurd hid (hfree id)

/-! ## New edges -/

/-- A new edge keeps a hierarchy tidy if it leads to it and leaves it as edges of a hierarchy do. -/
theorem Tidy.mergeEdge {g : Graph} {K l : String} {a b : Id} (ht : Tidy L K g)
    (hinto : g.label? b = some K → l = EdgeLabel.hasParent ∧ g.label? a = some K)
    (houtOf : g.label? a = some K → (l = EdgeLabel.hasParent ∧ g.label? b = some K) ∨
      (l = EdgeLabel.cloneOf ∧ ∀ M ∈ L, g.label? b ≠ some M)) :
    Tidy L K (g.mergeEdge l a b).2 := by
  constructor
  · intro id ps hid
    rw [nodes_mergeEdge] at hid
    exact ht.coded id ps hid
  · intro c x y hx hy
    exact ht.unique c x y (coded_mergeEdge.1 hx) (coded_mergeEdge.1 hy)
  · intro k x y hj hy
    rw [label?_mergeEdge] at hy ⊢
    rcases joined_mergeEdge.1 hj with hj | ⟨rfl, rfl, rfl⟩
    · exact ht.into k x y hj hy
    · exact hinto hy
  · intro k x y hj hx
    simp only [label?_mergeEdge] at hx ⊢
    rcases joined_mergeEdge.1 hj with hj | ⟨rfl, rfl, rfl⟩
    · exact ht.outOf k x y hj hx
    · exact houtOf hx
  · intro x y hx
    rw [label?_mergeEdge] at hx
    have hone := ht.once x y hx
    rw [tally_mergeEdge]
    split <;> omega

/-! ## Rewriting properties -/

/-- The second graph is the first with the properties of every node rewritten, codes excepted. -/
structure Rewrites (g g' : Graph) (F : Id → Properties → Properties) : Prop where
  edges : g'.edges = g.edges
  supply : g'.supply = g.supply
  nodes : ∀ x, g'.nodes.get? x = (g.nodes.get? x).map fun v => ⟨v.label, F x v.properties⟩
  code : ∀ x ps, codeIn (F x ps) = codeIn ps

namespace Rewrites

variable {g g' : Graph} {F : Id → Properties → Properties}

theorem label (h : Rewrites g g' F) (id : Id) : g'.label? id = g.label? id := by
  unfold label?
  rw [h.nodes, Option.map_map]
  rfl

theorem get?_iff (h : Rewrites g g' F) {id : Id} {l : String} {ps' : Properties} :
    g'.nodes.get? id = some ⟨l, ps'⟩ ↔ ∃ ps, g.nodes.get? id = some ⟨l, ps⟩ ∧ ps' = F id ps := by
  rw [h.nodes, Option.map_eq_some_iff]
  constructor
  · rintro ⟨v, hv, heq⟩
    cases heq
    exact ⟨v.properties, hv, rfl⟩
  · rintro ⟨ps, hps, rfl⟩
    exact ⟨⟨l, ps⟩, hps, rfl⟩

theorem coded (h : Rewrites g g' F) {l c : String} {id : Id} :
    g'.Coded l c id ↔ g.Coded l c id := by
  unfold Coded
  constructor
  · rintro ⟨ps', hps', hc⟩
    obtain ⟨ps, hps, rfl⟩ := h.get?_iff.1 hps'
    exact ⟨ps, hps, h.code id ps ▸ hc⟩
  · rintro ⟨ps, hps, hc⟩
    exact ⟨F id ps, h.get?_iff.2 ⟨ps, hps, rfl⟩, (h.code id ps).trans hc⟩

theorem tally (h : Rewrites g g' F) (l : String) (a b : Id) : g'.tally l a b = g.tally l a b :=
  tally_of_edges_eq h.edges l a b

theorem joined (h : Rewrites g g' F) {l : String} {a b : Id} :
    g'.Joined l a b ↔ g.Joined l a b := by
  unfold Joined
  rw [h.tally]

theorem fresh (h : Rewrites g g' F) (hg : g.Fresh) : g'.Fresh := by
  refine hg.of_grows (.of_eq h.supply) ?_ ?_
  · intro id _ hid
    rw [h.nodes, hid]
    rfl
  · intro l a b hj
    exact Or.inl (h.joined.1 hj)

theorem tidy (h : Rewrites g g' F) {K : String} (hg : Tidy L K g) : Tidy L K g' := by
  constructor
  · intro id ps' hps'
    obtain ⟨ps, hps, rfl⟩ := h.get?_iff.1 hps'
    obtain ⟨c, hc⟩ := hg.coded id ps hps
    exact ⟨c, (h.code id ps).trans hc⟩
  · intro c a b ha hb
    exact hg.unique c a b (h.coded.1 ha) (h.coded.1 hb)
  · intro l a b hj hb
    rw [h.label] at hb ⊢
    exact hg.into l a b (h.joined.1 hj) hb
  · intro l a b hj ha
    simp only [h.label] at ha ⊢
    exact hg.outOf l a b (h.joined.1 hj) ha
  · intro a b ha
    rw [h.label] at ha
    rw [h.tally]
    exact hg.once a b ha

theorem sound (h : Rewrites g g' F) (hg : Sound L g) : Sound L g' :=
  ⟨h.fresh hg.fresh, fun K hK => h.tidy (hg.tidy K hK)⟩

/-- The picture is rewritten as the properties are. -/
theorem shows (h : Rewrites g g' F) {K : String} {pic : Picture} (hs : g.Shows K pic)
    {U : String → Properties → Properties}
    (hU : ∀ id ps c, g.nodes.get? id = some ⟨K, ps⟩ → codeIn ps = some c → F id ps = U c ps) :
    g'.Shows K (pic.rewrite U) := by
  -- codes are not rewritten, so every node is found under the same code in both graphs
  constructor
  · intro c ps'
    show (pic.properties c).map (U c) = some ps' ↔ _
    rw [Option.map_eq_some_iff]
    constructor
    · rintro ⟨ps, hps, rfl⟩
      obtain ⟨id, hid, hc⟩ := (hs.properties c ps).1 hps
      refine ⟨id, h.get?_iff.2 ⟨ps, hid, (hU id ps c hid hc).symm⟩, ?_⟩
      rw [← hU id ps c hid hc, h.code]
      exact hc
    · rintro ⟨id, hid, hc⟩
      obtain ⟨ps, hps, rfl⟩ := h.get?_iff.1 hid
      rw [h.code] at hc
      exact ⟨ps, (hs.properties c ps).2 ⟨id, hps, hc⟩, (hU id ps c hps hc).symm⟩
  · intro c p
    show pic.parent c p ↔ _
    rw [hs.parent]
    simp only [h.coded, Up, h.joined]
  · intro c s
    show pic.link c s ↔ _
    rw [hs.link]
    simp only [h.coded, h.joined]

theorem preserves (h : Rewrites g g' F)
    (hF : ∀ id v, g.nodes.get? id = some v → v.label ∉ L → F id v.properties = v.properties) :
    Preserves L g g' := by
  constructor
  · intro id v hv
    rw [h.nodes, Option.map_eq_some_iff]
    constructor
    · rintro ⟨w, hw, rfl⟩
      rw [hF id w hw hv]
      exact hw
    · intro hw
      exact ⟨v, hw, by rw [hF id v hw hv]⟩
  · intro a _ _ _ b
    exact h.joined
  · rintro a s ⟨hj, hout⟩
    exact ⟨h.joined.1 hj, fun K hK => h.label a ▸ hout K hK⟩

end Rewrites

/-- Setting a property other than the code rewrites the nodes of a list. -/
theorem rewrites_of_set {g g' : Graph} {ids : List Id} {key : String} (value : Id → Json)
    (hkey : key ≠ Property.code) (hedges : g'.edges = g.edges) (hsupply : g'.supply = g.supply)
    (hget : ∀ x, g'.nodes.get? x =
      if x ∈ ids then (g.nodes.get? x).map (·.set key (value x)) else g.nodes.get? x) :
    Rewrites g g' fun x ps => if x ∈ ids then ps.insert key (value x) else ps := by
  refine ⟨hedges, hsupply, fun x => ?_, fun x ps => ?_⟩
  · rw [hget]
    split
    · rfl
    · exact (congrFun Option.map_id (g.nodes.get? x)).symm
  · split
    · unfold codeIn
      rw [Table.get?_insert, if_neg hkey]
    · rfl

theorem setProperties_rewrites (g : Graph) (ids : List Id) {key : String} (value : Json)
    (hkey : key ≠ Property.code) :
    Rewrites g (g.setProperties ids key value) fun x ps =>
      if x ∈ ids then ps.insert key value else ps :=
  rewrites_of_set (fun _ => value) hkey (edges_setProperties g ids key value)
    (supply_setProperties g ids key value) (get?_setProperties g ids key value)

theorem countChildren_rewrites (g : Graph) (ids : List Id) :
    Rewrites g (g.countChildren ids) fun x ps =>
      if x ∈ ids then ps.insert Property.numberOfChildren (g.childCount x) else ps :=
  rewrites_of_set _ (by decide) (edges_countChildren g ids) (supply_countChildren g ids)
    (get?_countChildren g ids)

theorem dropProperties_rewrites (g : Graph) (ids : List Id) {key : String}
    (hkey : key ≠ Property.code) :
    Rewrites g (ids.foldl (fun g id => g.dropProperty id key) g) fun x ps =>
      if x ∈ ids then ps.erase key else ps := by
  refine ⟨edges_dropProperties g ids key, supply_dropProperties g ids key, fun x => ?_,
    fun x ps => ?_⟩
  · rw [get?_dropProperties]
    split
    · rfl
    · exact (congrFun Option.map_id (g.nodes.get? x)).symm
  · split
    · unfold codeIn
      rw [Table.get?_erase, if_neg hkey]
    · rfl

end Graph
end InstanceHierarchy
