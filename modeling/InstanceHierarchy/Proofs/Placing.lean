import InstanceHierarchy.Proofs.Effects

/-!
# Places in the code list

A clone gets its place from the code that its source is linked to.  Linking a source to its code is
not seen in any hierarchy; giving places reads the edges that lead from the sources to codes and
from codes to the list, and writes to every clone that is linked to a source, whatever hierarchy it
is of.
-/

namespace InstanceHierarchy

namespace Picture

/-- The nodes that are linked to a source get its place, if it has one. -/
noncomputable def placeOne (place : Id → Option Json) (pic : Picture) (s : Id) : Picture :=
  match place s with
  | some order => pic.setWhere (pic.link · s) Property.order fun _ => order
  | none => pic

/-- The nodes that are linked to one of some sources get its place. -/
noncomputable def placeAll (place : Id → Option Json) (ids : List Id) (pic : Picture) : Picture :=
  ids.foldl (placeOne place) pic

end Picture

namespace Graph

variable {L : Set String}

/-! ## Edges with other labels -/

/-- Only parent edges and clone edges differ. -/
def SameOthers (g g' : Graph) : Prop :=
  ∀ l, l ≠ EdgeLabel.hasParent → l ≠ EdgeLabel.cloneOf → g'.edgesWithLabel l = g.edgesWithLabel l

theorem SameOthers.refl (g : Graph) : SameOthers g g := fun _ _ _ => rfl

theorem SameOthers.trans {g g' g'' : Graph} (h : SameOthers g g') (h' : SameOthers g' g'') :
    SameOthers g g'' := fun l hp hc => (h' l hp hc).trans (h l hp hc)

theorem SameOthers.of_edges {g g' : Graph} (h : g'.edges = g.edges) : SameOthers g g' := by
  intro l _ _
  unfold edgesWithLabel
  rw [h]

/-- Where edges lead is read off the edges with their label. -/
theorem targets_eq (g : Graph) (a : Id) (l : String) :
    g.targets a l = ((g.edgesWithLabel l).filter fun e => e.source = a).map (·.target) := by
  unfold targets edgesWithLabel
  rw [List.filter_filter]
  congr 2
  funext e
  rw [Bool.decide_and, Bool.and_comm]

/-- Links to codes are neither parent edges nor clone edges. -/
theorem SameOthers.codes {g g' : Graph} (h : SameOthers g g') (s : Id) :
    g'.targets s EdgeLabel.hasCode = g.targets s EdgeLabel.hasCode := by
  rw [targets_eq, targets_eq, h _ (by decide) (by decide)]

theorem edgesWithLabel_mergeEdge {g : Graph} {l : String} (s t : Id) {k : String} (h : l ≠ k) :
    (g.mergeEdge l s t).2.edgesWithLabel k = g.edgesWithLabel k := by
  unfold mergeEdge
  split
  · rfl
  · unfold addEdge edgesWithLabel
    show (g.edges ++ [_]).filter _ = _
    rw [List.filter_append, List.filter_cons_of_neg (by simpa using h), List.filter_nil,
      List.append_nil]

theorem sameOthers_mergeEdge (g : Graph) {l : String} (s t : Id)
    (hl : l = EdgeLabel.hasParent ∨ l = EdgeLabel.cloneOf) : SameOthers g (g.mergeEdge l s t).2 := by
  intro k hp hc
  refine edgesWithLabel_mergeEdge s t ?_
  rintro rfl
  rcases hl with rfl | rfl
  · exact hp rfl
  · exact hc rfl

theorem sameOthers_foldl {γ : Type} (step : Graph → γ → Graph)
    (h : ∀ g x, SameOthers g (step g x)) (xs : List γ) (g : Graph) :
    SameOthers g (xs.foldl step g) := by
  induction xs generalizing g with
  | nil => exact .refl g
  | cons x rest ih => exact (h g x).trans (ih (step g x))

theorem sameOthers_cloneNodes (g : Graph) (ids : List Id) (label : String) (codeList : Id)
    (hasData : Bool) : SameOthers g (g.cloneNodes ids label codeList hasData) := by
  refine sameOthers_foldl _ (fun g s => ?_) ids g
  rcases g.cloneNode_cases s label codeList hasData with
    ⟨-, heq⟩ | ⟨n, -, ⟨clone, rest, -, heq⟩ | ⟨v, -, -, heq⟩⟩
  · rw [heq]
    exact .refl g
  · rw [heq]
    exact sameOthers_mergeEdge g clone s (Or.inr rfl)
  · have hadd : SameOthers g (g.addVertex v).2 := .of_edges rfl
    rw [heq]
    exact hadd.trans (sameOthers_mergeEdge _ _ s (Or.inr rfl))

theorem sameOthers_linkParents (pairs : List (Id × Id)) (state : List Edge × Graph) :
    SameOthers state.2 (linkParents state pairs).2 := by
  induction pairs generalizing state with
  | nil => exact .refl _
  | cons pair rest ih =>
      exact (sameOthers_mergeEdge state.2 pair.1 pair.2 (Or.inl rfl)).trans (ih _)

theorem sameOthers_relate (g : Graph) (ids : List Id) (label : String) :
    SameOthers g (g.relate ids label).2 := by
  unfold relate
  have key : ∀ state : List Edge × Graph, SameOthers state.2 (ids.foldl (fun state source =>
      linkParents state (state.2.relatePairs label source)) state).2 := by
    induction ids with
    | nil => exact fun state => .refl _
    | cons s rest ih => exact fun state => (sameOthers_linkParents _ state).trans (ih _)
  exact key ([], g)

theorem sameOthers_unlinkSources (g : Graph) (ids : List Id) :
    SameOthers g (g.mutate (.unlinkSources ids)).2 := by
  intro l _ hc
  show (g.dropEdges EdgeLabel.cloneOf _).edgesWithLabel l = _
  unfold dropEdges edgesWithLabel
  rw [List.filter_filter]
  apply List.filter_congr
  intro e _
  by_cases hl : e.label = l
  · subst hl
    simp [hc]
  · simp [hl]

/-! ## Linking sources to codes -/

/-- An edge that is neither a parent edge nor a clone edge, between nodes outside of the hierarchies
under construction, is not seen in them. -/
theorem effect_outside {g : Graph} {l : String} {a b : Id} {v w : Vertex} (hs : Sound L g)
    (hp : l ≠ EdgeLabel.hasParent) (hc : l ≠ EdgeLabel.cloneOf) (ha : g.nodes.get? a = some v)
    (hv : v.label ∉ L) (hb : g.nodes.get? b = some w) (hw : w.label ∉ L) :
    Effect L g (g.mergeEdge l a b).2 fun _ => id := by
  have hout : ∀ {x u}, g.nodes.get? x = some u → u.label ∉ L → ∀ K ∈ L, g.label? x ≠ some K := by
    intro x u hx hu K hK h
    rw [label_of_get? hx] at h
    exact hu (Option.some.inj h ▸ hK)
  have hup : ∀ x y, (g.mergeEdge l a b).2.Up x y ↔ g.Up x y := by
    intro x y
    unfold Up
    rw [joined_mergeEdge]
    exact ⟨fun h => h.resolve_right fun h => hp h.1, Or.inl⟩
  have hclone : ∀ x y, (g.mergeEdge l a b).2.Joined EdgeLabel.cloneOf x y ↔
      g.Joined EdgeLabel.cloneOf x y := by
    intro x y
    rw [joined_mergeEdge]
    exact ⟨fun h => h.resolve_right fun h => hc h.1, Or.inl⟩
  refine ⟨⟨hs.fresh.mergeEdge l ha hb, fun K hK => ?_⟩,
    ⟨fun id u _ => by rw [nodes_mergeEdge], fun x _ _ _ y => hup x y, fun x s ⟨hj, hstray⟩ => ?_⟩,
    fun K hK pic hpic => ⟨fun c ps => ?_, fun c p => ?_, fun c s => ?_⟩⟩
  · exact (hs.tidy K hK).mergeEdge (fun h => absurd h (hout hb hw K hK)) fun h =>
      absurd h (hout ha hv K hK)
  · simp only [label?_mergeEdge] at hstray
    exact ⟨(hclone x s).1 hj, hstray⟩
  · rw [nodes_mergeEdge]
    exact hpic.properties c ps
  · simp only [coded_mergeEdge, hup]
    exact hpic.parent c p
  · simp only [coded_mergeEdge, hclone]
    exact hpic.link c s

/-- Linking a source to its code. -/
theorem effect_linkCode {g : Graph} {codeList : Id} {s : Id} {n : Node} (code : String)
    (hs : Sound L g) (hcode : NodeLabel.code codeList ∉ L) (hn : g.node? s = some n)
    (hout : n.label ∉ L) : Effect L g (g.linkCode codeList s code) fun _ => id := by
  rcases g.linkCode_cases codeList s code with ⟨-, heq⟩ | ⟨m, hm, -, heq⟩
  · rw [heq]
    exact Effect.refl hs
  · obtain ⟨hlabel, hget⟩ := get?_of_codeNode? hm
    rw [heq]
    refine effect_outside hs (by decide) (by decide) (node?_eq_some.1 hn).2 hout hget ?_
    show m.label ∉ L
    rw [hlabel]
    exact hcode

/-! ## Giving places -/

/-- Setting a property on all clones of a source. -/
theorem effect_setClones {g : Graph} {s : Id} {key : String} {value : Json} (hs : Sound L g)
    (hkey : key ≠ Property.code) (hours : ∀ a t, ¬ g.Stray L a t) :
    Effect L g (g.setProperties (g.sources s EdgeLabel.cloneOf) key value)
      fun _ pic => pic.setWhere (pic.link · s) key fun _ => value := by
  have hrw := setProperties_rewrites g (g.sources s EdgeLabel.cloneOf) value hkey
  refine ⟨hrw.sound hs, hrw.preserves fun id v hid hv => if_neg fun hmem => ?_,
    fun K hK pic hpic => ?_⟩
  · -- a clone outside of the hierarchies would make its link a stray one
    refine hours id s ⟨mem_sources.1 hmem, fun K hK h => hv ?_⟩
    rw [label_of_get? hid] at h
    exact Option.some.inj h ▸ hK
  · refine hrw.shows hpic fun id ps c hid hc => ?_
    have hmem : id ∈ g.sources s EdgeLabel.cloneOf ↔ pic.link c s := by
      rw [mem_sources, hpic.link]
      constructor
      · intro hj
        exact ⟨id, ⟨ps, hid, hc⟩, hj⟩
      · rintro ⟨a, ha, hj⟩
        obtain rfl := (hs.tidy K hK).unique c a id ha ⟨ps, hid, hc⟩
        exact hj
    by_cases hlink : pic.link c s
    · rw [if_pos hlink, if_pos (hmem.2 hlink)]
    · rw [if_neg hlink, if_neg fun h => hlink (hmem.1 h)]

/-- Giving the clones of one source its place. -/
theorem effect_copyOne {g : Graph} {codeList s : Id} {place : Id → Option Json} (hs : Sound L g)
    (hours : ∀ a t, ¬ g.Stray L a t) (hplace : g.orderOf? codeList s = place s) :
    Effect L g (g.copyOrder codeList s) fun _ pic => pic.placeOne place s := by
  unfold copyOrder
  cases horder : place s with
  | none =>
      rw [hplace, horder]
      refine (Effect.refl hs).congr fun K _ pic _ => ?_
      unfold Picture.placeOne
      rw [horder]
      rfl
  | some order =>
      rw [hplace, horder]
      refine (effect_setClones hs (by decide) hours).congr fun K _ pic _ => ?_
      unfold Picture.placeOne
      rw [horder]

theorem edges_copyOrder (g : Graph) (codeList s : Id) : (g.copyOrder codeList s).edges = g.edges := by
  unfold copyOrder
  cases g.orderOf? codeList s with
  | none => rfl
  | some order => exact edges_setProperties g _ _ order

theorem label?_copyOrder (g : Graph) (codeList s id : Id) :
    (g.copyOrder codeList s).label? id = g.label? id := by
  unfold copyOrder
  cases g.orderOf? codeList s with
  | none => rfl
  | some order => exact (setProperties_rewrites g _ order (by decide)).label id

/-- The place of a source is read off edges and labels. -/
theorem orderOf?_congr {g g' : Graph} {codeList s : Id}
    (htargets : g'.targets s EdgeLabel.hasCode = g.targets s EdgeLabel.hasCode)
    (husedBy : g'.edgesWithLabel EdgeLabel.usedBy = g.edgesWithLabel EdgeLabel.usedBy)
    (hlabel : ∀ id, g'.isLabelled id (NodeLabel.codeList codeList) =
      g.isLabelled id (NodeLabel.codeList codeList)) :
    g'.orderOf? codeList s = g.orderOf? codeList s := by
  -- written so that it reads nothing but what the hypotheses speak of
  have hread : ∀ g : Graph, g.orderOf? codeList s =
      (g.targets s EdgeLabel.hasCode).findSome? fun code =>
        ((g.edgesWithLabel EdgeLabel.usedBy).filter fun e => e.source = code ∧
          g.isLabelled e.target (NodeLabel.codeList codeList)).findSome? fun e =>
            e.properties.get? Property.order := by
    intro g
    unfold orderOf? edgesWithLabel
    congr 1
    funext code
    congr 1
    rw [List.filter_filter]
    congr 1
    funext e
    rw [← Bool.decide_and]
    exact decide_eq_decide.2 ⟨fun h => ⟨h.2, h.1⟩, fun h => ⟨h.2, h.1⟩⟩
  rw [hread, hread, htargets, husedBy]
  simp only [hlabel]

theorem orderOf?_copyOrder (g : Graph) (codeList s t : Id) :
    (g.copyOrder codeList s).orderOf? codeList t = g.orderOf? codeList t := by
  have hsame := SameOthers.of_edges (edges_copyOrder g codeList s)
  refine orderOf?_congr (hsame.codes t) (hsame _ (by decide) (by decide)) fun id => ?_
  rw [Bool.eq_iff_iff, isLabelled_iff, isLabelled_iff, label?_copyOrder]

/-- Giving the clones of some sources their places. -/
theorem effect_copyOrder {g : Graph} {codeList : Id} {ids : List Id} {place : Id → Option Json}
    (hs : Sound L g) (hours : ∀ a t, ¬ g.Stray L a t)
    (hplace : ∀ s ∈ ids, g.orderOf? codeList s = place s) :
    Effect L g (g.mutate (.copyOrder codeList ids)).2 fun _ => Picture.placeAll place ids := by
  show Effect L g (ids.foldl (fun g id => g.copyOrder codeList id) g) _
  induction ids generalizing g with
  | nil => exact Effect.refl hs
  | cons s rest ih =>
      have hone := effect_copyOne hs hours (hplace s List.mem_cons_self)
      -- one place that is given does not change those that are still to be given
      have hrest := ih hone.sound (fun a t h => hours a t (hone.preserves.stray a t h)) fun t ht => by
        rw [orderOf?_copyOrder]
        exact hplace t (List.mem_cons_of_mem s ht)
      exact hone.trans hrest

theorem edges_mutate_copyOrder (g : Graph) (codeList : Id) (ids : List Id) :
    (g.mutate (.copyOrder codeList ids)).2.edges = g.edges :=
  foldl_keeps edges (fun g id => g.copyOrder codeList id)
    (fun g id => edges_copyOrder g codeList id) ids g

end Graph
end InstanceHierarchy
