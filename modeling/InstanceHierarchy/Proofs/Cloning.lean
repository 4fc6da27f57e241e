import InstanceHierarchy.Proofs.Effects

/-!
# Cloning

Cloning a source adds a node to the picture of the target hierarchy unless there is one with the
source's code, and a link from that node to the source.
-/

namespace InstanceHierarchy
namespace Graph

variable {L : Set String}

/-! ## A new node -/

/-- A newly drawn id is not at the end of any edge. -/
theorem Fresh.ne_of_joined {g : Graph} (hg : g.Fresh) {id : Id} (hid : g.Future id) {l : String}
    {a b : Id} (hj : g.Joined l a b) : id ≠ a ∧ id ≠ b := by
  constructor
  · rintro rfl
    exact (hg.unjoined id hid l b).1 hj
  · rintro rfl
    exact (hg.unjoined id hid l a).2 hj

theorem label?_addVertex_of_ne {g : Graph} {v : Vertex} {x : Id} (h : (g.addVertex v).1 ≠ x) :
    (g.addVertex v).2.label? x = g.label? x := by
  unfold label?
  rw [get?_addVertex, if_neg h]

theorem coded_addVertex {g : Graph} (hg : g.Fresh) {v : Vertex} {l c : String} {x : Id} :
    (g.addVertex v).2.Coded l c x ↔
      g.Coded l c x ∨ ((g.addVertex v).1 = x ∧ v.label = l ∧ codeIn v.properties = some c) := by
  unfold Coded
  rw [get?_addVertex]
  by_cases hx : (g.addVertex v).1 = x
  · -- nothing is stored under an id before it is drawn
    have hnone : g.nodes.get? x = none := hx ▸ hg.unstored _ (future_addVertex g v)
    rw [if_pos hx, hnone]
    constructor
    · rintro ⟨ps, hps, hc⟩
      cases hps
      exact Or.inr ⟨hx, rfl, hc⟩
    · rintro (⟨ps, hps, -⟩ | ⟨-, rfl, hc⟩)
      · cases hps
      · exact ⟨v.properties, rfl, hc⟩
  · rw [if_neg hx]
    constructor
    · exact Or.inl
    · rintro (h | ⟨h, -⟩)
      · exact h
      · exact absurd h hx

/-- Adding a node with a new code keeps hierarchies tidy. -/
theorem Tidy.addVertex {g : Graph} {K : String} (ht : Tidy L K g) (hg : g.Fresh) {v : Vertex}
    {c : String} (hc : codeIn v.properties = some c) (hnew : ∀ a, ¬ g.Coded v.label c a) :
    Tidy L K (g.addVertex v).2 := by
  have hne : ∀ {l a b}, g.Joined l a b → (g.addVertex v).1 ≠ a ∧ (g.addVertex v).1 ≠ b :=
    fun hj => hg.ne_of_joined (future_addVertex g v) hj
  constructor
  · intro id ps hid
    rw [get?_addVertex] at hid
    split at hid
    · cases hid
      exact ⟨c, hc⟩
    · exact ht.coded id ps hid
  · intro d a b ha hb
    -- the node with the new code is the new one, and there was none before
    rcases (coded_addVertex hg).1 ha with ha | ⟨hax, rfl, hda⟩
    · rcases (coded_addVertex hg).1 hb with hb | ⟨-, rfl, hdb⟩
      · exact ht.unique d a b ha hb
      · rw [hc] at hdb
        cases hdb
        exact absurd ha (hnew a)
    · rcases (coded_addVertex hg).1 hb with hb | ⟨hbx, -, -⟩
      · rw [hc] at hda
        cases hda
        exact absurd hb (hnew b)
      · exact hax.symm.trans hbx
  · intro l a b hj hb
    obtain ⟨hna, hnb⟩ := hne hj
    rw [label?_addVertex_of_ne hnb] at hb
    rw [label?_addVertex_of_ne hna]
    exact ht.into l a b hj hb
  · intro l a b hj ha
    obtain ⟨hna, hnb⟩ := hne hj
    rw [label?_addVertex_of_ne hna] at ha
    rw [label?_addVertex_of_ne hnb]
    exact ht.outOf l a b hj ha
  · intro a b ha
    by_cases hx : (g.addVertex v).1 = a
    · -- a new node has no edges yet
      have hzero : ¬ g.Joined EdgeLabel.hasParent a b := fun hj => (hne hj).1 hx
      have : (g.addVertex v).2.tally EdgeLabel.hasParent a b = g.tally EdgeLabel.hasParent a b := rfl
      unfold Joined at hzero
      omega
    · rw [label?_addVertex_of_ne hx] at ha
      exact ht.once a b ha

theorem exists_addVertex {g : Graph} (hg : g.Fresh) {v w : Vertex} {d : String} :
    (∃ id, (g.addVertex v).2.nodes.get? id = some w ∧ codeIn w.properties = some d) ↔
      (∃ id, g.nodes.get? id = some w ∧ codeIn w.properties = some d) ∨
        (v = w ∧ codeIn w.properties = some d) := by
  have hnone : g.nodes.get? (g.addVertex v).1 = none := hg.unstored _ (future_addVertex g v)
  constructor
  · rintro ⟨id, hid, hd⟩
    rw [get?_addVertex] at hid
    split at hid
    · exact Or.inr ⟨Option.some.inj hid, hd⟩
    · exact Or.inl ⟨id, hid, hd⟩
  · rintro (⟨id, hid, hd⟩ | ⟨rfl, hd⟩)
    · refine ⟨id, ?_, hd⟩
      rw [get?_addVertex, if_neg, hid]
      rintro rfl
      rw [hnone] at hid
      cases hid
    · exact ⟨(g.addVertex v).1, by rw [get?_addVertex, if_pos rfl], hd⟩

/-- A new node has no edges, so only the nodes change in the picture of its hierarchy. -/
theorem Shows.addVertex {g : Graph} {K : String} {pic : Picture} (h : g.Shows K pic)
    (hg : g.Fresh) {v : Vertex} {f : String → Option Properties}
    (hf : ∀ d ps, f d = some ps ↔
      pic.properties d = some ps ∨ (v = ⟨K, ps⟩ ∧ codeIn ps = some d)) :
    (g.addVertex v).2.Shows K { pic with properties := f } := by
  have hne : ∀ {l a b}, g.Joined l a b → (g.addVertex v).1 ≠ a ∧ (g.addVertex v).1 ≠ b :=
    fun hj => hg.ne_of_joined (future_addVertex g v) hj
  have hcoded : ∀ {d x}, (g.addVertex v).1 ≠ x →
      ((g.addVertex v).2.Coded K d x ↔ g.Coded K d x) := by
    intro d x hx
    rw [coded_addVertex hg]
    exact ⟨fun h => h.resolve_right fun h => hx h.1, Or.inl⟩
  refine ⟨fun d ps => ?_, fun d p => ?_, fun d s => ?_⟩
  · show f d = some ps ↔ _
    rw [hf, h.properties]
    exact (exists_addVertex hg (w := ⟨K, ps⟩)).symm
  · show pic.parent d p ↔ _
    rw [h.parent]
    refine exists_congr fun a => exists_congr fun b => ?_
    constructor
    · rintro ⟨ha, hb, hup⟩
      exact ⟨(hcoded (hne hup).1).2 ha, (hcoded (hne hup).2).2 hb, hup⟩
    · rintro ⟨ha, hb, hup⟩
      exact ⟨(hcoded (hne hup).1).1 ha, (hcoded (hne hup).2).1 hb, hup⟩
  · show pic.link d s ↔ _
    rw [h.link]
    refine exists_congr fun a => ?_
    constructor
    · rintro ⟨ha, hj⟩
      exact ⟨(hcoded (hne hj).1).2 ha, hj⟩
    · rintro ⟨ha, hj⟩
      exact ⟨(hcoded (hne hj).1).1 ha, hj⟩

/-- Adding a node with a new code. -/
theorem effect_addVertex {g : Graph} {v : Vertex} {c : String} (hs : Sound L g)
    (hL : v.label ∈ L) (hc : codeIn v.properties = some c) (hnew : ∀ a, ¬ g.Coded v.label c a) :
    Effect L g (g.addVertex v).2 (onlyOn v.label fun pic =>
      { pic with properties := fun d => if d = c then some v.properties else pic.properties d }) := by
  have hg := hs.fresh
  have hnone : g.nodes.get? (g.addVertex v).1 = none := hg.unstored _ (future_addVertex g v)
  refine .of_onlyOn ⟨hg.addVertex v, fun K hK => (hs.tidy K hK).addVertex hg hc hnew⟩
    ⟨fun id w hw => ?_, fun _ _ _ _ _ => Iff.rfl, fun a s ⟨hj, hout⟩ => ?_⟩ hL
    (fun pic hpic => ?_) fun K hK hne pic hpic => ?_
  · rw [get?_addVertex]
    split
    · rename_i hx
      rw [← hx, hnone]
      constructor
      · intro h
        exact absurd (Option.some.inj h ▸ hL) hw
      · intro h
        cases h
    · exact Iff.rfl
  · have hne := (hg.ne_of_joined (future_addVertex g v) hj).1
    simp only [label?_addVertex_of_ne hne] at hout
    exact ⟨hj, hout⟩
  · have hfree : pic.properties c = none := hpic.properties_eq_none hnew
    refine hpic.addVertex hg fun d ps => ?_
    by_cases hd : d = c
    · subst hd
      rw [if_pos rfl, hfree, Option.some.injEq]
      constructor
      · rintro rfl
        exact Or.inr ⟨rfl, hc⟩
      · rintro (h | ⟨h, -⟩)
        · cases h
        · rw [h]
    · rw [if_neg hd]
      refine ⟨Or.inl, fun h => h.resolve_right ?_⟩
      rintro ⟨h, hcode⟩
      rw [h, hcode] at hc
      exact hd (Option.some.inj hc)
  · refine hpic.addVertex hg fun d ps => ⟨Or.inl, fun h => h.resolve_right ?_⟩
    rintro ⟨rfl, -⟩
    exact hne rfl

/-! ## A new link -/

theorem up_mergeLink {g : Graph} {a s x y : Id} :
    (g.mergeEdge EdgeLabel.cloneOf a s).2.Up x y ↔ g.Up x y := by
  unfold Up
  rw [joined_mergeEdge]
  exact ⟨fun h => h.resolve_right fun h => absurd h.1 (by decide), Or.inl⟩

/-- A link to a source outside the hierarchies under construction keeps them tidy. -/
theorem Tidy.mergeLink {g : Graph} {K : String} {a s : Id} (ht : Tidy L K g)
    (hout : ∀ M ∈ L, g.label? s ≠ some M) (hK : g.label? s ≠ some K) :
    Tidy L K (g.mergeEdge EdgeLabel.cloneOf a s).2 := by
  refine ht.mergeEdge (fun hs => absurd hs hK) fun _ => Or.inr ⟨rfl, hout⟩

/-- A new link shows with the code of the node that it leaves. -/
theorem Shows.mergeLink {g : Graph} {K : String} {pic : Picture} {a s : Id} (h : g.Shows K pic)
    {f : String → Id → Prop} (hf : ∀ d t, f d t ↔ pic.link d t ∨ (g.Coded K d a ∧ t = s)) :
    (g.mergeEdge EdgeLabel.cloneOf a s).2.Shows K { pic with link := f } := by
  refine ⟨fun d ps => ?_, fun d p => ?_, fun d t => (hf d t).trans ?_⟩
  · rw [nodes_mergeEdge]
    exact h.properties d ps
  · simp only [coded_mergeEdge, up_mergeLink]
    exact h.parent d p
  · rw [h.link]
    simp only [coded_mergeEdge, joined_mergeEdge, true_and]
    constructor
    · rintro (⟨x, hx, hj⟩ | ⟨ha, rfl⟩)
      · exact ⟨x, hx, Or.inl hj⟩
      · exact ⟨a, ha, Or.inr ⟨rfl, rfl⟩⟩
    · rintro ⟨x, hx, hj | ⟨rfl, rfl⟩⟩
      · exact Or.inl ⟨x, hx, hj⟩
      · exact Or.inr ⟨hx, rfl⟩

/-- Linking a node of a hierarchy to a source outside the hierarchies under construction. -/
theorem effect_link {g : Graph} {label c : String} {a s : Id} (hs : Sound L g) (hL : label ∈ L)
    (ha : g.Coded label c a) {v : Vertex} (hget : g.nodes.get? s = some v) (hv : v.label ∉ L) :
    Effect L g (g.mergeEdge EdgeLabel.cloneOf a s).2 (onlyOn label fun pic =>
      { pic with link := fun d t => pic.link d t ∨ (d = c ∧ t = s) }) := by
  have hout : ∀ K ∈ L, g.label? s ≠ some K := by
    intro K hK h
    rw [label_of_get? hget] at h
    exact hv (Option.some.inj h ▸ hK)
  have ⟨ps, hps, _⟩ := ha
  refine .of_onlyOn
    ⟨hs.fresh.mergeEdge _ hps hget, fun K hK => (hs.tidy K hK).mergeLink hout (hout K hK)⟩
    ⟨fun id w _ => by rw [nodes_mergeEdge], fun x _ _ _ y => up_mergeLink, fun x t ⟨hj, hstray⟩ => ?_⟩
    hL (fun pic hpic => hpic.mergeLink fun d t => or_congr_right (and_congr_left fun _ => ?_))
    fun K hK hne pic hpic => hpic.mergeLink fun d t => ⟨Or.inl, fun h => h.resolve_right ?_⟩
  · -- the new link leaves a node of the hierarchy, so it is no stray one
    simp only [label?_mergeEdge] at hstray
    rcases joined_mergeEdge.1 hj with hj | ⟨-, rfl, -⟩
    · exact ⟨hj, hstray⟩
    · exact absurd ha.label (hstray label hL)
  · exact ⟨fun hd => hd ▸ ha, fun hd => (hd.functional ha).2⟩
  · exact fun hd => hne (hd.1.functional ha).1

/-! ## Cloning sources -/

theorem codeIn_cloneProperties (n : Node) (c : String) (codeList : Id) (hasData : Bool) :
    codeIn (cloneProperties n c codeList hasData) = some c := by
  unfold codeIn cloneProperties
  cases n.properties.get? Property.label <;>
    simp only [Table.get?_insert, Property.code, Property.hasData, Property.codeList,
      Property.label] <;> rfl

/-- Cloning one source. -/
theorem effect_cloneNode {g : Graph} {label : String} {source : Id} {n : Node} (codeList : Id)
    (hasData : Bool) (hs : Sound L g) (hL : label ∈ L) (hn : g.node? source = some n)
    (hout : n.label ∉ L) :
    Effect L g (g.cloneNode source label codeList hasData)
      (onlyOn label fun pic => pic.cloneOne codeList hasData n) := by
  obtain ⟨hid, hget⟩ := node?_eq_some.1 hn
  unfold cloneNode
  rw [hn]
  show Effect L g (mergeEdge _ EdgeLabel.cloneOf _ source).2 _
  have hcode : (n.text? Property.code).getD "" = n.cloneCode := rfl
  rw [hcode]
  cases hids : g.idsWithCode label n.cloneCode with
  | cons a rest =>
      -- a node with the code serves as the clone, and only the link is new
      have ha : g.Coded label n.cloneCode a := mem_idsWithCode.1 (hids ▸ List.mem_cons_self)
      refine (effect_link hs hL ha hget hout).congr_onlyOn fun pic hpic => ?_
      obtain ⟨ps, hps, -⟩ := hpic.properties_of_coded ha
      unfold Picture.cloneOne
      congr 1
      · funext d
        split
        · rename_i hd
          rw [hd, hps]
          rfl
        · rfl
      · funext d t
        rw [hid]
  | nil =>
      -- no node has the code: a new one is made, and then linked
      have hnew : ∀ a, ¬ g.Coded label n.cloneCode a := idsWithCode_eq_nil_iff.1 hids
      have hadd := effect_addVertex
        (v := ⟨label, cloneProperties n n.cloneCode codeList hasData⟩) hs hL
        (codeIn_cloneProperties n _ codeList hasData) hnew
      have hcoded : (g.addVertex ⟨label, cloneProperties n n.cloneCode codeList hasData⟩).2.Coded
          label n.cloneCode
          (g.addVertex ⟨label, cloneProperties n n.cloneCode codeList hasData⟩).1 :=
        (coded_addVertex hs.fresh).2
          (Or.inr ⟨rfl, rfl, codeIn_cloneProperties n _ codeList hasData⟩)
      have hlink := effect_link hadd.sound hL hcoded ((hadd.preserves.nodes _ _ hout).2 hget) hout
      refine (hadd.trans_onlyOn hlink).congr_onlyOn fun pic hpic => ?_
      have hfree : pic.properties n.cloneCode = none := hpic.properties_eq_none hnew
      unfold Picture.cloneOne
      congr 1
      · funext d
        rw [hfree]
        rfl
      · funext d t
        rw [hid]

/-- Cloning several sources in turn. -/
theorem effect_cloneNodes {g : Graph} {label : String} {ids : List Id} (codeList : Id)
    (hasData : Bool) (hs : Sound L g) (hL : label ∈ L)
    (hids : ∀ id ∈ ids, ∃ n, g.node? id = some n ∧ n.label ∉ L) :
    Effect L g (g.cloneNodes ids label codeList hasData)
      (onlyOn label (Picture.clone codeList hasData (g.records ids))) := by
  induction ids generalizing g with
  | nil => exact .refl_onlyOn hs fun _ => rfl
  | cons id rest ih =>
      obtain ⟨n, hn, hout⟩ := hids id List.mem_cons_self
      have hone := effect_cloneNode codeList hasData hs hL hn hout
      -- the other sources lie outside of the hierarchies, so they are still the same
      have hkeep : ∀ x ∈ rest, (g.cloneNode id label codeList hasData).node? x = g.node? x := by
        intro x hx
        obtain ⟨m, hm, hmout⟩ := hids x (List.mem_cons_of_mem _ hx)
        have hget := (node?_eq_some.1 hm).2
        unfold node?
        rw [hget, (hone.preserves.nodes x m.vertex hmout).2 hget]
      have hrest := ih hone.sound fun x hx => by
        rw [hkeep x hx]
        exact hids x (List.mem_cons_of_mem _ hx)
      have hrecords : (g.cloneNode id label codeList hasData).records rest = g.records rest :=
        List.filterMap_congr hkeep
      rw [hrecords] at hrest
      have hcons : g.records (id :: rest) = n :: g.records rest := by
        unfold records
        rw [List.filterMap_cons_some hn]
      rw [hcons]
      exact hone.trans_onlyOn hrest

end Graph
end InstanceHierarchy
