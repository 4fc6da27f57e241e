import InstanceHierarchy.Proofs.Renaming

/-!
# Graphs that grow by what they are asked for

A graph grows from a start by nodes, each made for a source, and by edges that are asked for.  Ends
of such edges are nodes of the start or nodes that were made; they are named without the ids that
were drawn for them.  So what a graph has been asked for can be told apart from the order in which
it was asked, and from the ids.  Two graphs that have been asked for the same differ in drawn ids
and in the order of the added edges, and in nothing else.
-/

namespace InstanceHierarchy
namespace Graph

/-! ## What is asked for -/

/-- An end of an edge that is asked for: a node of the start, or the one made for a source. -/
inductive End where
  | old (id : Id)
  | made (source : Id)
  deriving DecidableEq

/-- An edge that is asked for. -/
structure Ask where
  label : String
  source : End
  target : End
  deriving DecidableEq

/-- The ids that were drawn: for the node made for a source, and for an edge that was asked for. -/
structure Draws where
  node : Id → Id
  edge : Ask → Id

/-- The id of an end. -/
def End.at (draws : Draws) : End → Id
  | old id => id
  | made source => draws.node source

/-- The end is a node of the start, or a node was made for its source. -/
def End.Known (start : Graph) (made : List Id) : End → Prop
  | old id => start.nodes.contains id
  | .made source => source ∈ made

namespace Ask

/-- The edge that is added when it is asked for. -/
def edge (draws : Draws) (q : Ask) : StoredEdge :=
  ⟨⟨draws.edge q, q.label, q.source.at draws, q.target.at draws⟩, .empty⟩

/-- The edge was there at the start. -/
def Told (start : Graph) (q : Ask) : Prop :=
  ∃ a b, q.source = .old a ∧ q.target = .old b ∧ start.Joined q.label a b

/-- Both ends are known. -/
def Known (start : Graph) (made : List Id) (q : Ask) : Prop :=
  q.source.Known start made ∧ q.target.Known start made

end Ask

/-- A graph that has grown: for some sources a vertex was made each, and some edges that were asked
for were added. -/
structure Growth (start : Graph) (vertex : Id → Vertex) (draws : Draws) (made : List Id)
    (told : List Ask) (g : Graph) : Prop where
  fresh : g.Fresh
  grows : start.Grows g
  /-- No id was drawn twice. -/
  nodup : (made.map draws.node ++ told.map draws.edge).Nodup
  drawn : ∀ id ∈ made.map draws.node ++ told.map draws.edge, start.Future id ∧ ¬ g.Future id
  nodes : ∀ id v, g.nodes.get? id = some v ↔
    start.nodes.get? id = some v ∨ ∃ s ∈ made, draws.node s = id ∧ vertex s = v
  edges : g.edges = start.edges ++ told.map (·.edge draws)
  known : ∀ q ∈ told, q.Known start made
  missing : ∀ q ∈ told, ¬ q.Told start

namespace Growth

variable {start g : Graph} {vertex : Id → Vertex} {draws : Draws} {made : List Id}
  {told : List Ask}

theorem init (hstart : start.Fresh) (vertex : Id → Vertex) (draws : Draws) :
    Growth start vertex draws [] [] start where
  fresh := hstart
  grows := .of_eq rfl
  nodup := List.nodup_nil
  drawn id h := absurd h List.not_mem_nil
  nodes id v := by simp
  edges := (List.append_nil _).symm
  known q h := absurd h List.not_mem_nil
  missing q h := absurd h List.not_mem_nil

theorem nodup_made (h : Growth start vertex draws made told g) : made.Nodup :=
  (List.nodup_append.1 h.nodup).1.of_map

theorem nodup_told (h : Growth start vertex draws made told g) : told.Nodup :=
  (List.nodup_append.1 h.nodup).2.1.of_map

theorem drawn_node (h : Growth start vertex draws made told g) {s : Id} (hs : s ∈ made) :
    start.Future (draws.node s) ∧ ¬ g.Future (draws.node s) :=
  h.drawn _ (List.mem_append_left _ (List.mem_map.2 ⟨s, hs, rfl⟩))

/-- An end that is known is stored. -/
theorem contains (h : Growth start vertex draws made told g) {a : End} (ha : a.Known start made) :
    g.nodes.contains (a.at draws) := by
  rw [Table.contains_iff]
  cases a with
  | old id =>
      obtain ⟨v, hv⟩ := Table.contains_iff.1 ha
      exact ⟨v, (h.nodes id v).2 (Or.inl hv)⟩
  | made s => exact ⟨vertex s, (h.nodes _ _).2 (Or.inr ⟨s, ha, rfl, rfl⟩)⟩

/-- What was stored at the start has not been drawn since. -/
theorem old_ne_made (h : Growth start vertex draws made told g) (hstart : start.Fresh) {x s : Id}
    (hx : start.nodes.contains x) (hs : s ∈ made) : draws.node s ≠ x := by
  rintro rfl
  obtain ⟨v, hv⟩ := Table.contains_iff.1 hx
  exact hstart.not_future hv (h.drawn_node hs).1

/-- Different ends have different ids. -/
theorem at_injective (h : Growth start vertex draws made told g) (hstart : start.Fresh) {a b : End}
    (ha : a.Known start made) (hb : b.Known start made) (heq : a.at draws = b.at draws) :
    a = b := by
  cases a with
  | old x =>
      cases b with
      | old y => exact congrArg End.old heq
      | made t => exact absurd heq.symm (h.old_ne_made hstart ha hb)
  | made s =>
      cases b with
      | old y => exact absurd heq (h.old_ne_made hstart hb ha)
      | made t =>
          have hnodup := (List.nodup_append.1 h.nodup).1
          exact congrArg End.made (List.inj_on_of_nodup_map hnodup ha hb heq)

/-- An edge that may be asked for is there if it was there at the start or has been asked for. -/
theorem joined (h : Growth start vertex draws made told g) (hstart : start.Fresh) {q : Ask}
    (hq : q.Known start made) :
    g.Joined q.label (q.source.at draws) (q.target.at draws) ↔ q.Told start ∨ q ∈ told := by
  rw [joined_iff, h.edges]
  constructor
  · rintro ⟨e, he, hlabel, hsource, htarget⟩
    rcases List.mem_append.1 he with he | he
    · -- an edge of the start does not end at a node that was made since
      have hj : start.Joined q.label (q.source.at draws) (q.target.at draws) :=
        joined_iff.2 ⟨e, he, hlabel, hsource, htarget⟩
      obtain ⟨label, source, target⟩ := q
      cases source with
      | made s => exact absurd hj (hstart.unjoined _ (h.drawn_node hq.1).1 _ _).1
      | old x =>
          cases target with
          | made t => exact absurd hj (hstart.unjoined _ (h.drawn_node hq.2).1 _ _).2
          | old y => exact Or.inl ⟨x, y, rfl, rfl, hj⟩
    · obtain ⟨r, hr, rfl⟩ := List.mem_map.1 he
      have hknown := h.known r hr
      have hsame : r = q := by
        obtain ⟨label, source, target⟩ := q
        obtain ⟨label', source', target'⟩ := r
        obtain rfl : label' = label := hlabel
        obtain rfl := h.at_injective hstart hknown.1 hq.1 hsource
        obtain rfl := h.at_injective hstart hknown.2 hq.2 htarget
        rfl
      exact Or.inr (hsame ▸ hr)
  · rintro (⟨a, b, ha, hb, hj⟩ | hmem)
    · obtain ⟨e, he, hlabel, hsource, htarget⟩ := joined_iff.1 hj
      rw [ha, hb]
      exact ⟨e, List.mem_append_left _ he, hlabel, hsource, htarget⟩
    · exact ⟨q.edge draws, List.mem_append_right _ (List.mem_map.2 ⟨q, hmem, rfl⟩), rfl, rfl, rfl⟩

/-- An edge that is asked for is merged. -/
theorem merge (h : Growth start vertex draws made told g) (hstart : start.Fresh) {q : Ask}
    (hq : q.Known start made) : ∃ draws' told', draws'.node = draws.node ∧
      Growth start vertex draws' made told'
        (g.mergeEdge q.label (q.source.at draws) (q.target.at draws)).2 ∧
      ∀ r, r ∈ told' ↔ r ∈ told ∨ (r = q ∧ ¬ q.Told start) := by
  by_cases hj : g.Joined q.label (q.source.at draws) (q.target.at draws)
  · -- nothing is added
    rw [mergeEdge_of_joined hj]
    refine ⟨draws, told, rfl, h, fun r => ⟨Or.inl, ?_⟩⟩
    rintro (hr | ⟨rfl, hmissing⟩)
    · exact hr
    · exact ((h.joined hstart hq).1 hj).resolve_left hmissing
  · have hnot := mt (h.joined hstart hq).2 hj
    rw [not_or] at hnot
    obtain ⟨hmissing, hnew⟩ := hnot
    obtain ⟨v, hv⟩ := Table.contains_iff.1 (h.contains hq.1)
    obtain ⟨w, hw⟩ := Table.contains_iff.1 (h.contains hq.2)
    have hfresh := h.fresh.mergeEdge q.label hv hw
    have hgrows := grows_mergeEdge g q.label (q.source.at draws) (q.target.at draws)
    have hmerge : (g.mergeEdge q.label (q.source.at draws) (q.target.at draws)).2 =
        (g.addEdge q.label (q.source.at draws) (q.target.at draws) .empty).2 := by
      unfold mergeEdge
      rw [if_neg fun hedge => hj (hasEdge_iff.1 hedge)]
    rw [hmerge] at hfresh hgrows ⊢
    generalize hid : g.supply.ident g.supply.drawn = id
    have hfuture : g.Future id := ⟨_, Nat.le_refl _, hid⟩
    let draws' : Draws := { draws with edge := Function.update draws.edge q id }
    have hself : draws'.edge q = id := Function.update_self q id draws.edge
    have hother : ∀ r ∈ told, draws'.edge r = draws.edge r := fun r hr =>
      Function.update_of_ne (fun heq : r = q => hnew (heq ▸ hr)) id draws.edge
    have hids : made.map draws'.node ++ (told ++ [q]).map draws'.edge =
        (made.map draws.node ++ told.map draws.edge) ++ [id] := by
      rw [List.map_append, List.map_singleton, hself, List.map_congr_left hother, List.append_assoc]
    refine ⟨draws', told ++ [q], rfl, ⟨hfresh, h.grows.trans hgrows, ?_, ?_, h.nodes, ?_, ?_, ?_⟩,
      ?_⟩
    · rw [hids, List.nodup_append_comm]
      exact List.nodup_cons.2 ⟨fun hmem => (h.drawn id hmem).2 hfuture, h.nodup⟩
    · rw [hids]
      intro x hx
      rcases List.mem_append.1 hx with hx | hx
      · exact ⟨(h.drawn x hx).1, fun hf => (h.drawn x hx).2 (hgrows.future hf)⟩
      · obtain rfl := List.mem_singleton.1 hx
        exact ⟨h.grows.future hfuture, hid ▸ h.fresh.spent hgrows (Nat.lt_succ_self _)⟩
    · have hedges : told.map (·.edge draws') = told.map (·.edge draws) :=
        List.map_congr_left fun r hr => by
          show (⟨⟨draws'.edge r, _, _, _⟩, _⟩ : StoredEdge) = _
          rw [hother r hr]
          rfl
      show g.edges ++ [_] = _
      rw [h.edges, List.append_assoc, List.map_append, hedges, List.map_singleton, Ask.edge, hself,
        ← hid]
      rfl
    · exact fun r hr => (List.mem_append.1 hr).elim (h.known r) fun hr =>
        List.mem_singleton.1 hr ▸ hq
    · exact fun r hr => (List.mem_append.1 hr).elim (h.missing r) fun hr =>
        List.mem_singleton.1 hr ▸ hmissing
    · intro r
      simp [hmissing]

/-- A vertex is made for a source. -/
theorem add (h : Growth start vertex draws made told g) {s : Id} (hs : s ∉ made) :
    ∃ draws', draws'.node s = (g.addVertex (vertex s)).1 ∧
      Growth start vertex draws' (made ++ [s]) told (g.addVertex (vertex s)).2 := by
  have hgrows : g.Grows (g.addVertex (vertex s)).2 := ⟨rfl, Nat.le_succ _⟩
  have hfuture := future_addVertex g (vertex s)
  have hspent : ¬ (g.addVertex (vertex s)).2.Future (g.addVertex (vertex s)).1 :=
    h.fresh.spent hgrows (Nat.lt_succ_self _)
  have hget := get?_addVertex g (vertex s)
  have hfresh := h.fresh.addVertex (vertex s)
  have hedges : (g.addVertex (vertex s)).2.edges = g.edges := rfl
  generalize (g.addVertex (vertex s)).2 = g' at hgrows hspent hget hfresh hedges ⊢
  generalize (g.addVertex (vertex s)).1 = id at hfuture hspent hget ⊢
  let draws' : Draws := { draws with node := Function.update draws.node s id }
  have hself : draws'.node s = id := Function.update_self s id draws.node
  have hother : ∀ t ∈ made, draws'.node t = draws.node t := fun t ht =>
    Function.update_of_ne (fun heq : t = s => hs (heq ▸ ht)) id draws.node
  have hend : ∀ a : End, a.Known start made → a.at draws' = a.at draws ∧
      a.Known start (made ++ [s]) := by
    intro a ha
    cases a with
    | old x => exact ⟨rfl, ha⟩
    | made t => exact ⟨hother t ha, List.mem_append_left _ ha⟩
  have hids : ((made ++ [s]).map draws'.node ++ told.map draws'.edge).Perm
      (id :: (made.map draws.node ++ told.map draws.edge)) := by
    rw [List.map_append, List.map_singleton, hself, List.map_congr_left hother, List.append_assoc]
    exact List.perm_middle
  refine ⟨draws', hself, hfresh, h.grows.trans hgrows, ?_, fun x hx => ?_, fun x v => ?_, ?_,
    fun q hq => ?_, h.missing⟩
  · rw [hids.nodup_iff]
    exact List.nodup_cons.2 ⟨fun hmem => (h.drawn id hmem).2 hfuture, h.nodup⟩
  · rcases List.mem_cons.1 (hids.mem_iff.1 hx) with rfl | hx
    · exact ⟨h.grows.future hfuture, hspent⟩
    · exact ⟨(h.drawn x hx).1, fun hf => (h.drawn x hx).2 (hgrows.future hf)⟩
  · rw [hget]
    constructor
    · intro hv
      split at hv
      · rename_i hx
        exact Or.inr ⟨s, List.mem_append_right _ List.mem_cons_self, hself.trans hx,
          Option.some.inj hv⟩
      · rcases (h.nodes x v).1 hv with hold | ⟨t, ht, htx, htv⟩
        · exact Or.inl hold
        · exact Or.inr ⟨t, List.mem_append_left _ ht, (hother t ht).trans htx, htv⟩
    · -- the id of the new node is that of no node there was before
      have hfree : ∀ v, g.nodes.get? id ≠ some v := fun v hv =>
        h.fresh.not_future hv hfuture
      rintro (hold | ⟨t, ht, rfl, rfl⟩)
      · have hv := (h.nodes x v).2 (Or.inl hold)
        rw [if_neg fun hx : id = x => hfree v (hx ▸ hv)]
        exact hv
      · rcases List.mem_append.1 ht with ht | ht
        · have hv := (h.nodes _ _).2 (Or.inr ⟨t, ht, rfl, rfl⟩)
          rw [hother t ht, if_neg fun hx : id = draws.node t => hfree _ (hx ▸ hv)]
          exact hv
        · obtain rfl := List.mem_singleton.1 ht
          rw [hself, if_pos rfl]
  · rw [hedges, h.edges]
    refine congrArg _ (List.map_congr_left fun q hq => ?_)
    obtain ⟨hsource, htarget⟩ := h.known q hq
    rw [Ask.edge, Ask.edge, (hend _ hsource).1, (hend _ htarget).1]
  · obtain ⟨hsource, htarget⟩ := h.known q hq
    exact ⟨(hend _ hsource).2, (hend _ htarget).2⟩

end Growth

/-- A graph has grown from the start by nodes for certain sources, and by the edges that were asked
for unless they were there. -/
def Grown (start : Graph) (vertex : Id → Vertex) (makes : Id → Prop) (asks : Ask → Prop)
    (g : Graph) : Prop :=
  ∃ draws made told, Growth start vertex draws made told g ∧ (∀ s, s ∈ made ↔ makes s) ∧
    ∀ q, q ∈ told ↔ asks q ∧ ¬ q.Told start

namespace Grown

variable {start g : Graph} {vertex : Id → Vertex} {makes : Id → Prop} {asks : Ask → Prop}

theorem init (hstart : start.Fresh) (vertex : Id → Vertex) :
    Grown start vertex (fun _ => False) (fun _ => False) start :=
  ⟨⟨id, fun _ => ""⟩, [], [], .init hstart vertex _, by simp, by simp⟩

theorem congr {makes' : Id → Prop} {asks' : Ask → Prop} (h : Grown start vertex makes asks g)
    (hmakes : ∀ s, makes s ↔ makes' s) (hasks : ∀ q, asks q ↔ asks' q) :
    Grown start vertex makes' asks' g := by
  obtain rfl : makes = makes' := funext fun s => propext (hmakes s)
  obtain rfl : asks = asks' := funext fun q => propext (hasks q)
  exact h

/-- What is stored is what was stored at the start, or it was made since. -/
theorem get?_eq_some (h : Grown start vertex makes asks g) {id : Id} {v : Vertex} :
    g.nodes.get? id = some v ↔
      start.nodes.get? id = some v ∨ ∃ s, makes s ∧ start.Future id ∧ vertex s = v ∧
        g.nodes.get? id = some v := by
  obtain ⟨draws, made, told, hg, hmade, -⟩ := h
  constructor
  · intro hv
    rcases (hg.nodes id v).1 hv with hold | ⟨s, hs, rfl, rfl⟩
    · exact Or.inl hold
    · exact Or.inr ⟨s, (hmade s).1 hs, (hg.drawn_node hs).1, rfl, hv⟩
  · rintro (hold | ⟨-, -, -, -, hv⟩)
    · exact (hg.nodes id v).2 (Or.inl hold)
    · exact hv

/-- An edge between nodes of the start is merged. -/
theorem merge (hstart : start.Fresh) (h : Grown start vertex makes asks g) (label : String)
    {a b : Id} (ha : start.nodes.contains a) (hb : start.nodes.contains b) :
    Grown start vertex makes (fun q => asks q ∨ q = ⟨label, .old a, .old b⟩)
      (g.mergeEdge label a b).2 := by
  obtain ⟨draws, made, told, hg, hmade, htold⟩ := h
  obtain ⟨draws', told', -, hg', htold'⟩ := hg.merge hstart (q := ⟨label, .old a, .old b⟩) ⟨ha, hb⟩
  refine ⟨draws', made, told', hg', hmade, fun r => ?_⟩
  rw [htold', htold, or_and_right]
  refine or_congr_right (and_congr_right fun heq => ?_)
  rw [heq]

/-- A vertex is made for a source, and an edge from it to a node of the start is merged. -/
theorem add (hstart : start.Fresh) (h : Grown start vertex makes asks g) (label : String)
    {s b : Id} (hs : ¬ makes s) (hb : start.nodes.contains b) :
    Grown start vertex (fun t => makes t ∨ t = s)
      (fun q => asks q ∨ q = ⟨label, .made s, .old b⟩)
      ((g.addVertex (vertex s)).2.mergeEdge label (g.addVertex (vertex s)).1 b).2 := by
  obtain ⟨draws, made, told, hg, hmade, htold⟩ := h
  obtain ⟨draws', hself, hg'⟩ := hg.add (mt (hmade s).1 hs)
  have hmem : s ∈ made ++ [s] := List.mem_append_right _ List.mem_cons_self
  obtain ⟨draws'', told', -, hg'', htold'⟩ :=
    hg'.merge hstart (q := ⟨label, .made s, .old b⟩) ⟨hmem, hb⟩
  rw [← hself]
  refine ⟨draws'', made ++ [s], told', hg'', fun t => ?_, fun r => ?_⟩
  · rw [List.mem_append, hmade, List.mem_singleton]
  · rw [htold', htold, or_and_right]
    refine or_congr_right (and_congr_right fun heq => ?_)
    rw [heq]

/-- Edges between nodes of the start are merged one after another. -/
theorem mergeAll (hstart : start.Fresh) (h : Grown start vertex makes asks g) (label : String)
    {pairs : List (Id × Id)}
    (hpairs : ∀ p ∈ pairs, start.nodes.contains p.1 ∧ start.nodes.contains p.2) :
    Grown start vertex makes (fun q => asks q ∨ ∃ p ∈ pairs, q = ⟨label, .old p.1, .old p.2⟩)
      (pairs.foldl (fun g p => (g.mergeEdge label p.1 p.2).2) g) := by
  induction pairs generalizing g asks with
  | nil => exact h.congr (fun _ => Iff.rfl) (by simp)
  | cons p rest ih =>
      obtain ⟨hp, hrest⟩ := List.forall_mem_cons.1 hpairs
      rw [List.foldl_cons]
      refine (ih (h.merge hstart label hp.1 hp.2) hrest).congr (fun _ => Iff.rfl) fun q => ?_
      simp [or_assoc]

section Unmade

/-! ### No node is made -/

theorem nodes_eq (h : Grown start vertex makes asks g) (hnone : ∀ s, ¬ makes s) :
    g.nodes = start.nodes := by
  refine Table.ext_get? fun id => Option.ext fun v => h.get?_eq_some.trans (or_iff_left ?_)
  rintro ⟨s, hs, -⟩
  exact hnone s hs

/-- An edge is there that was there at the start or has been asked for. -/
theorem joined_iff_asked (h : Grown start vertex makes asks g) (hnone : ∀ s, ¬ makes s)
    {label : String} {a b : Id} :
    g.Joined label a b ↔ start.Joined label a b ∨ asks ⟨label, .old a, .old b⟩ := by
  obtain ⟨draws, made, told, hg, hmade, htold⟩ := h
  have hold : ∀ x : End, x.Known start made → x = .old (x.at draws) := by
    intro x hx
    cases x with
    | old id => rfl
    | made s => exact absurd ((hmade s).1 hx) (hnone s)
  rw [joined_iff, hg.edges]
  constructor
  · rintro ⟨e, he, rfl, rfl, rfl⟩
    rcases List.mem_append.1 he with he | he
    · exact Or.inl (joined_iff.2 ⟨e, he, rfl, rfl, rfl⟩)
    · obtain ⟨q, hq, rfl⟩ := List.mem_map.1 he
      obtain ⟨hsource, htarget⟩ := hg.known q hq
      have hasks := ((htold q).1 hq).1
      obtain ⟨l, x, y⟩ := q
      rw [hold x hsource, hold y htarget] at hasks
      exact Or.inr hasks
  · have hstart : start.Joined label a b → ∃ e ∈ start.edges ++ told.map (·.edge draws),
        e.label = label ∧ e.source = a ∧ e.target = b := by
      intro hj
      obtain ⟨e, he, hends⟩ := joined_iff.1 hj
      exact ⟨e, List.mem_append_left _ he, hends⟩
    rintro (hj | hasks)
    · exact hstart hj
    · by_cases hj : start.Joined label a b
      · exact hstart hj
      · -- it was asked for and was not there, so it was added
        have hmem : (⟨label, .old a, .old b⟩ : Ask) ∈ told := by
          refine (htold _).2 ⟨hasks, ?_⟩
          rintro ⟨x, y, hx, hy, hxy⟩
          cases hx
          cases hy
          exact hj hxy
        exact ⟨_, List.mem_append_right _ (List.mem_map.2 ⟨_, hmem, rfl⟩), rfl, rfl, rfl⟩

end Unmade

/-- Graphs that have grown by the same are the same but for ids and the order of edges. -/
theorem same (hstart : start.Fresh) (h : Grown start vertex makes asks g)
    {g' : Graph} (h' : Grown start vertex makes asks g') : SameButIds start g g' := by
  obtain ⟨draws, made, told, hg, hmade, htold⟩ := h
  obtain ⟨draws', made', told', hg', hmade', htold'⟩ := h'
  have hpermMade : made.Perm made' := (List.perm_ext_iff_of_nodup hg.nodup_made hg'.nodup_made).2
    fun s => (hmade s).trans (hmade' s).symm
  have hpermTold : told.Perm told' := (List.perm_ext_iff_of_nodup hg.nodup_told hg'.nodup_told).2
    fun q => (htold q).trans (htold' q).symm
  -- the ids that were drawn for one graph are renamed to those drawn for the other
  have hfst : (made.map (fun s => (draws.node s, draws'.node s)) ++
      told.map fun q => (draws.edge q, draws'.edge q)).map Prod.fst =
        made.map draws.node ++ told.map draws.edge := by
    simp [Function.comp_def]
  have hsnd : (made.map (fun s => (draws.node s, draws'.node s)) ++
      told.map fun q => (draws.edge q, draws'.edge q)).map Prod.snd =
        made.map draws'.node ++ told.map draws'.edge := by
    simp [Function.comp_def]
  have hperm : (made.map draws'.node ++ told.map draws'.edge).Perm
      (made'.map draws'.node ++ told'.map draws'.edge) :=
    (hpermMade.map _).append (hpermTold.map _)
  obtain ⟨f, hpairs, hrest⟩ := exists_perm_of_pairs _ (hfst ▸ hg.nodup)
    (hsnd ▸ hperm.nodup_iff.2 hg'.nodup)
  rw [hfst, hsnd] at hrest
  have hfixed : ∀ id, ¬ start.Future id → f id = id := fun id hid => hrest id
    (fun hmem => hid (hg.drawn id hmem).1)
    (fun hmem => hid (hg'.drawn id (hperm.mem_iff.1 hmem)).1)
  have hnode : ∀ s ∈ made, f (draws.node s) = draws'.node s := fun s hs =>
    hpairs _ (List.mem_append_left _ (List.mem_map.2 ⟨s, hs, rfl⟩))
  have hedge : ∀ q ∈ told, f (draws.edge q) = draws'.edge q := fun q hq =>
    hpairs _ (List.mem_append_right _ (List.mem_map.2 ⟨q, hq, rfl⟩))
  refine ⟨f, hfixed, fun id => Option.ext fun v => ?_, _, _, hg.edges, hg'.edges, ?_⟩
  · rw [hg'.nodes, hg.nodes]
    constructor
    · rintro (hold | ⟨t, ht, hid, hv⟩)
      · have hid : f id = id := f.injective (hfixed _ (hstart.not_future hold))
        exact Or.inl (hid ▸ hold)
      · have hmem := hpermMade.mem_iff.2 ht
        exact Or.inr ⟨t, hmem, f.injective ((hnode t hmem).trans hid), hv⟩
    · rintro (hold | ⟨t, ht, rfl, hv⟩)
      · rw [hfixed id (hstart.not_future hold)]
        exact Or.inl hold
      · exact Or.inr ⟨t, hpermMade.mem_iff.1 ht, (hnode t ht).symm, hv⟩
  · have hend : ∀ a : End, a.Known start made → f (a.at draws) = a.at draws' := by
      intro a ha
      cases a with
      | old x =>
          obtain ⟨v, hv⟩ := Table.contains_iff.1 ha
          exact hfixed x (hstart.not_future hv)
      | made s => exact hnode s ha
    have hrename : (told.map (·.edge draws)).map (·.rename f) = told.map (·.edge draws') := by
      rw [List.map_map]
      refine List.map_congr_left fun q hq => ?_
      obtain ⟨hsource, htarget⟩ := hg.known q hq
      show (⟨⟨f (draws.edge q), q.label, f (q.source.at draws), f (q.target.at draws)⟩, _⟩ :
        StoredEdge) = _
      rw [hedge q hq, hend _ hsource, hend _ htarget]
      rfl
    rw [hrename]
    exact hpermTold.map _

/-! ## Growing item by item -/

/-- A step for one more item makes and asks for what the start tells of the item, whatever was done
for others. -/
def StepsBy (start : Graph) (vertex : Id → Vertex) (items : List ι) (step : Graph → ι → Graph)
    (makesFor : ι → Id → Prop) (asksFor : ι → Ask → Prop) : Prop :=
  ∀ (done : List ι) (i : ι) (g : Graph), (∀ j ∈ done, j ∈ items) → i ∈ items → i ∉ done →
    Grown start vertex (fun s => ∃ j ∈ done, makesFor j s) (fun q => ∃ j ∈ done, asksFor j q) g →
    Grown start vertex (fun s => (∃ j ∈ done, makesFor j s) ∨ makesFor i s)
      (fun q => (∃ j ∈ done, asksFor j q) ∨ asksFor i q) (step g i)

namespace StepsBy

variable {ι : Type} {step : Graph → ι → Graph} {makesFor : ι → Id → Prop}
  {asksFor : ι → Ask → Prop} {items : List ι}

/-- After the steps for some items a graph has grown by what the start tells of these. -/
theorem foldl (h : StepsBy start vertex items step makesFor asksFor) (hstart : start.Fresh)
    {done : List ι} (hnodup : done.Nodup) (hdone : ∀ j ∈ done, j ∈ items) :
    Grown start vertex (fun s => ∃ j ∈ done, makesFor j s) (fun q => ∃ j ∈ done, asksFor j q)
      (done.foldl step start) := by
  induction done using List.reverseRecOn with
  | nil => exact (init hstart vertex).congr (by simp) (by simp)
  | append_singleton done i ih =>
      rw [List.nodup_append_comm] at hnodup
      obtain ⟨hi, hnodup⟩ := List.nodup_cons.1 hnodup
      have hrest : ∀ j ∈ done, j ∈ items := fun j hj => hdone j (List.mem_append_left _ hj)
      have hmem : i ∈ items := hdone i (List.mem_append_right _ List.mem_cons_self)
      rw [List.foldl_append]
      refine (h done i _ hrest hmem hi (ih hnodup hrest)).congr (fun s => ?_) fun q => ?_
      · simp [or_and_right, exists_or]
      · simp [or_and_right, exists_or]

/-- The order of the items makes no difference. -/
theorem same (h : StepsBy start vertex items step makesFor asksFor) (hstart : start.Fresh)
    (hnodup : items.Nodup) {order : List ι} (hperm : order.Perm items) :
    SameButIds start (order.foldl step start) (items.foldl step start) := by
  have hgrown := h.foldl hstart (hperm.nodup_iff.2 hnodup) fun j => hperm.mem_iff.1
  refine (hgrown.congr (fun s => ?_) fun q => ?_).same hstart
    (h.foldl hstart hnodup fun j hj => hj)
  · exact exists_congr fun j => and_congr_left fun _ => hperm.mem_iff
  · exact exists_congr fun j => and_congr_left fun _ => hperm.mem_iff

end StepsBy
end Grown
end Graph
end InstanceHierarchy
