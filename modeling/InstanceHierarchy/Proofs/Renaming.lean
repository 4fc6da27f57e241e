import InstanceHierarchy.Proofs.Additions
import Mathlib.Logic.Equiv.Basic

/-!
# Graphs that differ in drawn ids

Two graphs that grew out of a third one may differ in the ids that were drawn since, and in the
order of the edges that were added.  A permutation of the ids takes one to the other then.  Such a
permutation is found when builds of one hierarchy have left the same picture of it and the same
links to codes: nodes correspond when they have the same code, and edges when their ends do.
-/

namespace InstanceHierarchy

/-- The edge with other ids. -/
def StoredEdge.rename (f : Id → Id) (e : StoredEdge) : StoredEdge :=
  ⟨⟨f e.id, e.label, f e.source, f e.target⟩, e.properties⟩

/-- Finitely many pairs, of which no two agree on one side, are part of a permutation that moves
nothing else. -/
theorem exists_perm_of_pairs (pairs : List (Id × Id)) (hfst : (pairs.map Prod.fst).Nodup)
    (hsnd : (pairs.map Prod.snd).Nodup) : ∃ f : Equiv.Perm Id, (∀ p ∈ pairs, f p.1 = p.2) ∧
      ∀ x, x ∉ pairs.map Prod.fst → x ∉ pairs.map Prod.snd → f x = x := by
  induction pairs with
  | nil => exact ⟨1, by simp, fun _ _ _ => rfl⟩
  | cons pair rest ih =>
      obtain ⟨a, b⟩ := pair
      rw [List.map_cons, List.nodup_cons] at hfst hsnd
      obtain ⟨f, hpairs, hrest⟩ := ih hfst.2 hsnd.2
      -- what `a` went to and what it is to go to change places after `f`
      refine ⟨f.trans (Equiv.swap (f a) b), fun p hp => ?_, fun x hx hx' => ?_⟩
      · rcases List.mem_cons.1 hp with rfl | hp
        · exact Equiv.swap_apply_left _ _
        · have hne : p.2 ≠ b := fun h => hsnd.1 (List.mem_map.2 ⟨p, hp, h⟩)
          have hne' : p.2 ≠ f a := by
            rw [← hpairs p hp]
            exact fun h => hfst.1 (List.mem_map.2 ⟨p, hp, f.injective h⟩)
          show Equiv.swap (f a) b (f p.1) = p.2
          rw [hpairs p hp, Equiv.swap_apply_of_ne_of_ne hne' hne]
      · rw [List.map_cons, List.mem_cons, not_or] at hx hx'
        have hfix : f x = x := hrest x hx.2 hx'.2
        have hne : x ≠ f a := by
          intro h
          exact hx.1 (f.injective (hfix.trans h))
        show Equiv.swap (f a) b (f x) = x
        rw [hfix, Equiv.swap_apply_of_ne_of_ne hne hx'.1]

namespace Graph

/-- A permutation of the ids takes one graph to another one, both of which hold the edges of a third
graph in their places, and moves no id but those that were drawn since. -/
structure Renames (start : Graph) (f : Equiv.Perm Id) (g g' : Graph) : Prop where
  fixed : ∀ id, ¬ start.Future id → f id = id
  nodes : ∀ id, g'.nodes.get? (f id) = g.nodes.get? id
  edges : ∃ new new', g.edges = start.edges ++ new ∧ g'.edges = start.edges ++ new' ∧
    (new.map (·.rename f)).Perm new'

/-- The graphs are the same but for drawn ids and the order of added edges. -/
def SameButIds (start g g' : Graph) : Prop := ∃ f : Equiv.Perm Id, Renames start f g g'

variable {start g g' : Graph} {K : String} {pic : Picture} {linked : Id → Id → Prop}

/-- Builds of the hierarchy with a label are done: the hierarchy has a picture, the other nodes are
those at the start, and nodes are linked to codes as some relation has it. -/
structure Settled (start : Graph) (K : String) (pic : Picture) (linked : Id → Id → Prop)
    (g : Graph) : Prop extends WorkedOn start K g where
  tidy : Tidy {K} K g
  shows : g.Shows K pic
  outside : ∀ id v, v.label ≠ K → (g.nodes.get? id = some v ↔ start.nodes.get? id = some v)
  codes : ∀ a b, g.Joined EdgeLabel.hasCode a b ↔ linked a b

/-- Two ids correspond: they are those of nodes with the same code in the hierarchy, or they are the
same and were not drawn since the start. -/
def Corresponds (start : Graph) (K : String) (g g' : Graph) (a a' : Id) : Prop :=
  (∃ c, g.Coded K c a ∧ g'.Coded K c a') ∨ (a' = a ∧ ¬ start.Future a)

/-- Two edges have the same label, and their ends correspond. -/
structure EdgesCorrespond (start : Graph) (K : String) (g g' : Graph) (e e' : StoredEdge) :
    Prop where
  label : e'.label = e.label
  source : Corresponds start K g g' e.source e'.source
  target : Corresponds start K g g' e.target e'.target

/-- For every node of the hierarchy and every added edge, something that corresponds to it. -/
structure Matches (start : Graph) (K : String) (g g' : Graph) (new new' : List StoredEdge)
    (node : Id → Id) (edge : StoredEdge → StoredEdge) : Prop where
  node : ∀ a, g.label? a = some K → Corresponds start K g g' a (node a)
  edge : ∀ e ∈ new, edge e ∈ new' ∧ EdgesCorrespond start K g g' e (edge e)

/-- A permutation of the ids that takes the nodes of the hierarchy and the added edges to such as
correspond to them, and moves no id but those that were drawn since. -/
structure Carries (start : Graph) (K : String) (g g' : Graph) (new new' : List StoredEdge)
    (f : Equiv.Perm Id) : Prop where
  fixed : ∀ id, ¬ start.Future id → f id = id
  node : ∀ a, g.label? a = some K → Corresponds start K g g' a (f a)
  edge : ∀ e ∈ new, ∃ e' ∈ new', EdgesCorrespond start K g g' e e' ∧ f e.id = e'.id

theorem Corresponds.symm {a a' : Id} (h : Corresponds start K g g' a a') :
    Corresponds start K g' g a' a := by
  rcases h with ⟨c, hc, hc'⟩ | ⟨rfl, ha⟩
  · exact Or.inl ⟨c, hc', hc⟩
  · exact Or.inr ⟨rfl, ha⟩

theorem EdgesCorrespond.symm {e e' : StoredEdge} (h : EdgesCorrespond start K g g' e e') :
    EdgesCorrespond start K g' g e' e :=
  ⟨h.label.symm, h.source.symm, h.target.symm⟩

/-- No added edge has the id of a node of the hierarchy. -/
theorem Additions.id_ne {new : List StoredEdge} (hnew : Additions start K g new) {a : Id}
    (ha : g.label? a = some K) {e : StoredEdge} (he : e ∈ new) : e.id ≠ a := by
  rintro rfl
  obtain ⟨ps, hps⟩ := label?_eq_some_iff.1 ha
  have hnone := (hnew.added e he).apart
  rw [hps] at hnone
  cases hnone

namespace Settled

/-- A stored node that is not of the hierarchy was there at the start. -/
theorem not_future (h : Settled start K pic linked g) (hstart : start.Fresh) {a : Id}
    (ha : g.nodes.contains a) (hlabel : g.label? a ≠ some K) : ¬ start.Future a := by
  obtain ⟨v, hv⟩ := Table.contains_iff.1 ha
  have hne : v.label ≠ K := fun hl => hlabel (hl ▸ label_of_get? hv)
  exact hstart.not_future ((h.outside a v hne).1 hv)

/-- What corresponds to a node of the hierarchy is one with the same code. -/
theorem coded (h : Settled start K pic linked g) {a a' : Id}
    (ha : Corresponds start K g g' a a') (hlabel : g.label? a = some K) :
    ∃ c, g.Coded K c a ∧ g'.Coded K c a' := by
  rcases ha with hc | ⟨-, hold⟩
  · exact hc
  · exact absurd (h.drawn a hlabel) hold

/-- What corresponds to another node is that node. -/
theorem same {a a' : Id} (ha : Corresponds start K g g' a a') (hlabel : g.label? a ≠ some K) :
    a' = a := by
  rcases ha with ⟨c, hc, -⟩ | ⟨heq, -⟩
  · exact absurd hc.label hlabel
  · exact heq

variable (h : Settled start K pic linked g) (h' : Settled start K pic linked g')

include h h'

theorem functional {a b b' : Id} (hb : Corresponds start K g g' a b)
    (hb' : Corresponds start K g g' a b') : b = b' := by
  by_cases hlabel : g.label? a = some K
  · obtain ⟨c, hc, hcb⟩ := h.coded hb hlabel
    obtain ⟨d, hd, hdb⟩ := h.coded hb' hlabel
    rw [(hc.functional hd).2] at hcb
    exact h'.tidy.unique d b b' hcb hdb
  · rw [same hb hlabel, same hb' hlabel]

theorem injective {a a' b : Id} (hb : Corresponds start K g g' a b)
    (hb' : Corresponds start K g g' a' b) : a = a' := functional h' h hb.symm hb'.symm

theorem tells_functional {e f f' : StoredEdge} (hf : EdgesCorrespond start K g g' e f)
    (hf' : EdgesCorrespond start K g g' e f') : f.tells = f'.tells :=
  Prod.ext (hf.label.trans hf'.label.symm)
    (Prod.ext (functional h h' hf.source hf'.source) (functional h h' hf.target hf'.target))

/-- Something corresponds to every stored node. -/
theorem exists_node (hstart : start.Fresh) {a : Id} (ha : g.nodes.contains a) :
    ∃ a', Corresponds start K g g' a a' := by
  by_cases hlabel : g.label? a = some K
  · obtain ⟨c, hc⟩ := h.tidy.exists_code hlabel
    obtain ⟨ps, hps, -⟩ := h.shows.properties_of_coded hc
    obtain ⟨a', -, hc'⟩ := h'.shows.exists_coded hps
    exact ⟨a', Or.inl ⟨c, hc, hc'⟩⟩
  · exact ⟨a, Or.inr ⟨rfl, h.not_future hstart ha hlabel⟩⟩

/-- Nodes that correspond are stored alike. -/
theorem get?_eq {a a' : Id} (ha : g.nodes.contains a) (hcorr : Corresponds start K g g' a a') :
    g'.nodes.get? a' = g.nodes.get? a := by
  by_cases hlabel : g.label? a = some K
  · obtain ⟨c, hc, hc'⟩ := h.coded hcorr hlabel
    obtain ⟨ps, hps, hget⟩ := h.shows.properties_of_coded hc
    obtain ⟨ps', hps', hget'⟩ := h'.shows.properties_of_coded hc'
    rw [hps] at hps'
    rw [hget, hget', Option.some.inj hps']
  · obtain ⟨v, hv⟩ := Table.contains_iff.1 ha
    have hne : v.label ≠ K := fun hl => hlabel (hl ▸ label_of_get? hv)
    rw [same hcorr hlabel, hv, (h'.outside a v hne).2 ((h.outside a v hne).1 hv)]

/-- Nodes that correspond to the ends of an added edge are joined in the other graph, and were not
joined at the start. -/
theorem joined (hstart : start.Fresh) {e : StoredEdge} (he : e ∈ g.edges)
    (hadded : Added start K g e) {a' b' : Id} (ha : Corresponds start K g g' e.source a')
    (hb : Corresponds start K g g' e.target b') :
    g'.Joined e.label a' b' ∧ ¬ start.Joined e.label a' b' := by
  have hj : g.Joined e.label e.source e.target := joined_iff.2 ⟨e, he, rfl, rfl, rfl⟩
  by_cases hlabel : g.label? e.source = some K
  · obtain ⟨c, hc, hc'⟩ := h.coded ha hlabel
    refine ⟨?_, (hstart.unjoined a' (h'.drawn a' hc'.label) _ _).1⟩
    rcases h.tidy.outOf _ _ _ hj hlabel with ⟨hl, htarget⟩ | ⟨hl, hout⟩
    · -- a parent edge, which the picture shows
      rw [hl] at hj ⊢
      obtain ⟨d, hd, hd'⟩ := h.coded hb htarget
      obtain ⟨x, y, hx, hy, hup⟩ :=
        (h'.shows.parent c d).1 ((h.shows.parent c d).2 ⟨_, _, hc, hd, hj⟩)
      rw [h'.tidy.unique c a' x hc' hx, h'.tidy.unique d b' y hd' hy]
      exact hup
    · -- a clone edge, which the picture shows
      rw [hl] at hj ⊢
      obtain ⟨x, hx, hlink⟩ :=
        (h'.shows.link c e.target).1 ((h.shows.link c e.target).2 ⟨_, hc, hj⟩)
      rw [same hb (hout K rfl), h'.tidy.unique c a' x hc' hx]
      exact hlink
  · -- a link to a code, neither end of which is of the hierarchy
    have hcode := hadded.kind.resolve_right hlabel
    have htarget : g.label? e.target ≠ some K := by
      intro htarget
      have hl := (h.tidy.into _ _ _ hj htarget).1
      rw [hcode] at hl
      exact absurd hl (by decide)
    rw [same ha hlabel, same hb htarget]
    refine ⟨?_, hadded.missing⟩
    rw [hcode] at hj ⊢
    exact (h'.codes _ _).2 ((h.codes _ _).1 hj)

/-- An added edge corresponds to every added edge. -/
theorem exists_edge (hstart : start.Fresh) {new new' : List StoredEdge}
    (hnew : Additions start K g new) (hnew' : Additions start K g' new') {e : StoredEdge}
    (he : e ∈ new) : ∃ e' ∈ new', EdgesCorrespond start K g g' e e' := by
  have hadded := hnew.added e he
  obtain ⟨a', ha⟩ := exists_node h h' hstart hadded.stored.1
  obtain ⟨b', hb⟩ := exists_node h h' hstart hadded.stored.2
  obtain ⟨hj, hmissing⟩ :=
    joined h h' hstart (hnew.edges ▸ List.mem_append_right _ he) hadded ha hb
  obtain ⟨e', he', hl, rfl, rfl⟩ := mem_tells.1 ((hnew'.joined.1 hj).resolve_left hmissing)
  exact ⟨e', he', hl, ha, hb⟩

theorem exists_matches (hstart : start.Fresh) {new new' : List StoredEdge}
    (hnew : Additions start K g new) (hnew' : Additions start K g' new') :
    ∃ node edge, Matches start K g g' new new' node edge := by
  have hnodes : ∀ a, ∃ a', g.label? a = some K → Corresponds start K g g' a a' := by
    intro a
    by_cases ha : g.label? a = some K
    · obtain ⟨a', ha'⟩ := exists_node h h' hstart (contains_of_label ha)
      exact ⟨a', fun _ => ha'⟩
    · exact ⟨a, fun h => absurd h ha⟩
  have hedges : ∀ e, ∃ e', e ∈ new → e' ∈ new' ∧ EdgesCorrespond start K g g' e e' := by
    intro e
    by_cases he : e ∈ new
    · obtain ⟨e', he'⟩ := exists_edge h h' hstart hnew hnew' he
      exact ⟨e', fun _ => he'⟩
    · exact ⟨e, fun h => absurd h he⟩
  choose node hnode using hnodes
  choose edge hedge using hedges
  exact ⟨node, edge, hnode, hedge⟩

omit h' in
/-- What a node of the hierarchy is matched with is a node of the hierarchy. -/
theorem label_of_matches {new new' : List StoredEdge} {node : Id → Id}
    {edge : StoredEdge → StoredEdge} (hm : Matches start K g g' new new' node edge) {a : Id}
    (ha : g.label? a = some K) : g'.label? (node a) = some K := by
  obtain ⟨c, -, hc⟩ := h.coded (hm.node a ha) ha
  exact hc.label

/-- No two of the nodes and edges are matched with things of the same id. -/
theorem nodup_matches {new new' : List StoredEdge} {node : Id → Id}
    {edge : StoredEdge → StoredEdge} (hnew : Additions start K g new)
    (hnew' : Additions start K g' new') (hm : Matches start K g g' new new' node edge) :
    ((g.idsWithLabel K).map node ++ new.map fun e => (edge e).id).Nodup := by
  refine List.Nodup.append ?_ ?_ fun id hid hid' => ?_
  · refine (nodup_idsWithLabel g K).map_on fun a ha b hb heq => ?_
    have hb' := hm.node b (mem_idsWithLabel.1 hb)
    rw [← heq] at hb'
    exact injective h h' (hm.node a (mem_idsWithLabel.1 ha)) hb'
  · refine hnew.once.of_map.map_on fun e he e' he' heq => ?_
    have hsame : edge e = edge e' :=
      List.inj_on_of_nodup_map hnew'.ids (hm.edge e he).1 (hm.edge e' he').1 heq
    have hback := (hm.edge e' he').2
    rw [← hsame] at hback
    exact List.inj_on_of_nodup_map hnew.once he he'
      (tells_functional h' h (hm.edge e he).2.symm hback.symm)
  · obtain ⟨a, ha, rfl⟩ := List.mem_map.1 hid
    obtain ⟨e, he, heq⟩ := List.mem_map.1 hid'
    exact hnew'.id_ne (h.label_of_matches hm (mem_idsWithLabel.1 ha)) (hm.edge e he).1 heq

/-- A permutation of the ids carries what was added to one graph to what was added to the other. -/
theorem exists_perm (hstart : start.Fresh) {new new' : List StoredEdge}
    (hnew : Additions start K g new) (hnew' : Additions start K g' new') :
    ∃ f, Carries start K g g' new new' f := by
  obtain ⟨node, edge, hm⟩ := exists_matches h h' hstart hnew hnew'
  -- no edge has the id of a node, so the ids of nodes and edges may be renamed together
  have hnodup : (g.idsWithLabel K ++ new.map (·.id)).Nodup := by
    refine (nodup_idsWithLabel g K).append hnew.ids fun a ha hid => ?_
    obtain ⟨e, he, heq⟩ := List.mem_map.1 hid
    exact hnew.id_ne (mem_idsWithLabel.1 ha) he heq
  have hfst : ((g.idsWithLabel K).map (fun a => (a, node a)) ++
      new.map fun e => (e.id, (edge e).id)).map Prod.fst =
        g.idsWithLabel K ++ new.map (·.id) := by
    simp [Function.comp_def]
  have hsnd : ((g.idsWithLabel K).map (fun a => (a, node a)) ++
      new.map fun e => (e.id, (edge e).id)).map Prod.snd =
        (g.idsWithLabel K).map node ++ new.map fun e => (edge e).id := by
    simp [Function.comp_def]
  obtain ⟨f, hpairs, hrest⟩ := exists_perm_of_pairs _ (hfst ▸ hnodup)
    (hsnd ▸ nodup_matches h h' hnew hnew' hm)
  rw [hfst, hsnd] at hrest
  refine ⟨f, fun id hid => hrest id ?_ ?_, fun a ha => ?_, fun e he => ?_⟩
  · rw [List.mem_append, List.mem_map]
    rintro (ha | ⟨e, he, rfl⟩)
    · exact hid (h.drawn id (mem_idsWithLabel.1 ha))
    · exact hid (hnew.added e he).drawn
  · rw [List.mem_append, List.mem_map, List.mem_map]
    rintro (⟨a, ha, rfl⟩ | ⟨e, he, rfl⟩)
    · exact hid (h'.drawn _ (h.label_of_matches hm (mem_idsWithLabel.1 ha)))
    · exact hid (hnew'.added _ (hm.edge e he).1).drawn
  · have hf : f a = node a := hpairs (a, node a)
      (List.mem_append_left _ (List.mem_map.2 ⟨a, mem_idsWithLabel.2 ha, rfl⟩))
    rw [hf]
    exact hm.node a ha
  · exact ⟨edge e, (hm.edge e he).1, (hm.edge e he).2, hpairs (e.id, (edge e).id)
      (List.mem_append_right _ (List.mem_map.2 ⟨e, he, rfl⟩))⟩

/-- The permutation takes what is stored to what corresponds to it. -/
theorem carried (hstart : start.Fresh) {new new' : List StoredEdge} {f : Equiv.Perm Id}
    (hf : Carries start K g g' new new' f) {a a' : Id} (ha : g.nodes.contains a)
    (hcorr : Corresponds start K g g' a a') : f a = a' := by
  by_cases hlabel : g.label? a = some K
  · exact functional h h' (hf.node a hlabel) hcorr
  · rw [hf.fixed a (h.not_future hstart ha hlabel), same hcorr hlabel]

/-- A renamed edge is one that was added to the other graph. -/
theorem carried_edge (hstart : start.Fresh) {new new' : List StoredEdge} {f : Equiv.Perm Id}
    (hnew : Additions start K g new) (hnew' : Additions start K g' new')
    (hf : Carries start K g g' new new' f) {e : StoredEdge} (he : e ∈ new) :
    e.rename f ∈ new' ∧ EdgesCorrespond start K g g' e (e.rename f) := by
  obtain ⟨e', he', hcorr, hid⟩ := hf.edge e he
  have hadded := hnew.added e he
  have hsource := carried h h' hstart hf hadded.stored.1 hcorr.source
  have htarget := carried h h' hstart hf hadded.stored.2 hcorr.target
  have hbare := hadded.bare.trans (hnew'.added e' he').bare.symm
  have heq : e.rename f = e' := by
    obtain ⟨⟨id', l', s', t'⟩, ps'⟩ := e'
    have hlabel : l' = e.label := hcorr.label
    unfold StoredEdge.rename
    rw [hid, hsource, htarget, hbare, hlabel]
  exact heq ▸ ⟨he', hcorr⟩

/-- The other graph stores at a renamed id what the graph stores at the id. -/
theorem get?_carried (hstart : start.Fresh) {new new' : List StoredEdge} {f : Equiv.Perm Id}
    (hf : Carries start K g g' new new' f) (id : Id) :
    g'.nodes.get? (f id) = g.nodes.get? id := by
  by_cases hid : g.nodes.contains id
  · obtain ⟨a', ha'⟩ := exists_node h h' hstart hid
    rw [carried h h' hstart hf hid ha']
    exact get?_eq h h' hid ha'
  · -- no node has the id, and none has what it is renamed to
    have hnone : ∀ {g : Graph} {id : Id}, ¬ g.nodes.contains id → g.nodes.get? id = none :=
      fun hid => Option.not_isSome_iff_eq_none.1 hid
    rw [hnone hid]
    refine hnone fun hid' => hid ?_
    obtain ⟨a, ha⟩ := exists_node h' h hstart hid'
    have hstored : g.nodes.contains a := by
      unfold Table.contains
      rw [get?_eq h' h hid' ha]
      exact hid'
    exact f.injective (carried h h' hstart hf hstored ha.symm) ▸ hstored

/-- Graphs in which the same has been built differ in drawn ids alone. -/
theorem sameButIds (hstart : start.Fresh) : SameButIds start g g' := by
  obtain ⟨new, hnew⟩ := h.additions
  obtain ⟨new', hnew'⟩ := h'.additions
  obtain ⟨f, hf⟩ := exists_perm h h' hstart hnew hnew'
  have hrename : ∀ e ∈ new, e.rename f ∈ new' ∧ EdgesCorrespond start K g g' e (e.rename f) :=
    fun e he => carried_edge h h' hstart hnew hnew' hf he
  refine ⟨f, hf.fixed, get?_carried h h' hstart hf, new, new', hnew.edges, hnew'.edges, ?_⟩
  refine (List.perm_ext_iff_of_nodup ?_ hnew'.once.of_map).2 fun e' => ⟨?_, fun he' => ?_⟩
  · refine hnew.once.of_map.map_on fun e he e' he' heq => ?_
    have hid : f e.id = f e'.id := congrArg (·.id) heq
    exact List.inj_on_of_nodup_map hnew.ids he he' (f.injective hid)
  · intro he'
    obtain ⟨e, he, rfl⟩ := List.mem_map.1 he'
    exact (hrename e he).1
  · -- the edge corresponds to an added one, which is renamed to it
    obtain ⟨e, he, hcorr⟩ := exists_edge h' h hstart hnew' hnew he'
    obtain ⟨hmem, hcorr'⟩ := hrename e he
    have hsame : e.rename f = e' := List.inj_on_of_nodup_map hnew'.once hmem he'
      (tells_functional h h' hcorr' hcorr.symm)
    exact List.mem_map.2 ⟨e, he, hsame⟩

end Settled
end Graph
end InstanceHierarchy
