import InstanceHierarchy.Proofs.Changes

/-!
# What builds of a hierarchy add

Builds of one hierarchy leave the edges that were there at the start where they are.  The edges that
they add follow them: each leaves a node of the hierarchy or leads to a code, and no two tell the
same.  The ids of the nodes and the edges that are added have been drawn since, each for one of
them.
-/

namespace InstanceHierarchy

/-- What an edge tells: its label and its ends. -/
def StoredEdge.tells (e : StoredEdge) : String × Id × Id := (e.label, e.source, e.target)

namespace Graph

variable {start g g' : Graph} {label : String}

/-- An edge that was added for the hierarchy with a label. -/
structure Added (start : Graph) (label : String) (g : Graph) (e : StoredEdge) : Prop where
  missing : ¬ start.Joined e.label e.source e.target
  bare : e.properties = .empty
  drawn : start.Future e.id
  spent : ¬ g.Future e.id
  /-- No node has its id. -/
  apart : g.nodes.get? e.id = none
  stored : g.nodes.contains e.source ∧ g.nodes.contains e.target
  kind : e.label = EdgeLabel.hasCode ∨ g.label? e.source = some label

/-- Some edges are all that was added, and none of them repeats another one or its id. -/
structure Additions (start : Graph) (label : String) (g : Graph) (new : List StoredEdge) :
    Prop where
  edges : g.edges = start.edges ++ new
  once : (new.map (·.tells)).Nodup
  ids : (new.map (·.id)).Nodup
  added : ∀ e ∈ new, Added start label g e

/-- A graph that builds of the hierarchy with a label have worked on. -/
structure WorkedOn (start : Graph) (label : String) (g : Graph) : Prop where
  fresh : g.Fresh
  grows : start.Grows g
  drawn : ∀ id, g.label? id = some label → start.Future id
  additions : ∃ new, Additions start label g new

theorem workedOn_start (hfresh : start.Fresh) (hfree : ∀ id, start.label? id ≠ some label) :
    WorkedOn start label start :=
  ⟨hfresh, .of_eq rfl, fun id hid => absurd hid (hfree id), [], (List.append_nil _).symm,
    List.nodup_nil, List.nodup_nil, by simp⟩

theorem mem_tells {new : List StoredEdge} {l : String} {a b : Id} :
    (l, a, b) ∈ new.map (·.tells) ↔ ∃ e ∈ new, e.label = l ∧ e.source = a ∧ e.target = b := by
  simp [StoredEdge.tells]

/-- What is told now was told at the start or has been added. -/
theorem Additions.joined {new : List StoredEdge} (h : Additions start label g new) {l : String}
    {a b : Id} : g.Joined l a b ↔ start.Joined l a b ∨ (l, a, b) ∈ new.map (·.tells) := by
  rw [mem_tells, joined_iff, joined_iff, h.edges]
  simp only [List.mem_append, or_and_right, exists_or]

theorem contains_iff_label {id : Id} : g.nodes.contains id = true ↔ ∃ l, g.label? id = some l := by
  rw [Table.contains_iff]
  constructor
  · rintro ⟨v, hv⟩
    exact ⟨v.label, label_of_get? hv⟩
  · rintro ⟨l, hl⟩
    obtain ⟨ps, hps⟩ := label?_eq_some_iff.1 hl
    exact ⟨_, hps⟩

theorem edges_removeNodes (g : Graph) (ids : List Id) : (ids.foldl removeNode g).edges =
    g.edges.filter fun e => e.source ∉ ids ∧ e.target ∉ ids := by
  induction ids generalizing g with
  | nil => simp
  | cons id rest ih =>
      rw [List.foldl_cons, ih]
      show (g.edges.filter _).filter _ = _
      rw [List.filter_filter]
      apply List.filter_congr
      intro e _
      simp only [List.mem_cons, not_or, ← Bool.decide_and, decide_eq_decide]
      tauto

namespace WorkedOn

/-- A change that adds no edges, and drops none of those at the start. -/
theorem of_filter (h : WorkedOn start label g) (hfresh : g'.Fresh) (hgrows : g.Grows g')
    (hdrawn : ∀ id, g'.label? id = some label → start.Future id)
    (hnone : ∀ id, ¬ g.Future id → g.nodes.get? id = none → g'.nodes.get? id = none)
    (keep : StoredEdge → Bool) (hedges : g'.edges = g.edges.filter keep)
    (hkeep : ∀ e ∈ start.edges, keep e = true)
    (hends : ∀ e ∈ g.edges, keep e = true → g.nodes.contains e.source → g.nodes.contains e.target →
      g'.label? e.source = g.label? e.source ∧ g'.label? e.target = g.label? e.target) :
    WorkedOn start label g' := by
  obtain ⟨new, hnew⟩ := h.additions
  have hsub : (new.filter keep).Sublist new := List.filter_sublist
  refine ⟨hfresh, h.grows.trans hgrows, hdrawn, new.filter keep, ?_, hnew.once.sublist (hsub.map _),
    hnew.ids.sublist (hsub.map _), fun e he => ?_⟩
  · rw [hedges, hnew.edges, List.filter_append, List.filter_eq_self.2 hkeep]
  · obtain ⟨he, hk⟩ := List.mem_filter.1 he
    have hadded := hnew.added e he
    obtain ⟨hsource, htarget⟩ := hends e (hnew.edges ▸ List.mem_append_right _ he) hk
      hadded.stored.1 hadded.stored.2
    refine { hadded with
      spent := fun hf => hadded.spent (hgrows.future hf)
      apart := hnone _ hadded.spent hadded.apart
      stored := ?_
      kind := by rw [hsource]; exact hadded.kind }
    rw [contains_iff_label, contains_iff_label, hsource, htarget, ← contains_iff_label,
      ← contains_iff_label]
    exact hadded.stored

/-- An edge is added that was missing. -/
theorem addEdge (h : WorkedOn start label g) {l : String} {s t : Id} (hs : g.nodes.contains s)
    (ht : g.nodes.contains t) (hkind : l = EdgeLabel.hasCode ∨ g.label? s = some label)
    (hmissing : ¬ g.Joined l s t) :
    ∃ new, Additions start label (g.addEdge l s t .empty).2 new := by
  obtain ⟨new, hnew⟩ := h.additions
  have hgrows : g.Grows (g.addEdge l s t .empty).2 := ⟨rfl, Nat.le_succ _⟩
  have hfuture : g.Future (g.addEdge l s t .empty).1.id := ⟨_, Nat.le_refl _, rfl⟩
  -- neither what the new edge tells nor its id is that of an edge that was added before
  have htells : (l, s, t) ∉ new.map (·.tells) := fun hmem => hmissing (hnew.joined.2 (Or.inr hmem))
  have hid : (g.addEdge l s t .empty).1.id ∉ new.map (·.id) := by
    intro hmem
    obtain ⟨e, he, heq⟩ := List.mem_map.1 hmem
    exact (hnew.added e he).spent (heq ▸ hfuture)
  refine ⟨new ++ [⟨(g.addEdge l s t .empty).1, .empty⟩], ?_, ?_, ?_, fun e he => ?_⟩
  · show g.edges ++ [_] = _
    rw [hnew.edges, List.append_assoc]
    rfl
  · rw [List.map_append, List.map_singleton, List.nodup_append_comm]
    exact List.nodup_cons.2 ⟨htells, hnew.once⟩
  · rw [List.map_append, List.map_singleton, List.nodup_append_comm]
    exact List.nodup_cons.2 ⟨hid, hnew.ids⟩
  · rcases List.mem_append.1 he with he | he
    · have hadded := hnew.added e he
      exact { hadded with spent := fun hf => hadded.spent (hgrows.future hf) }
    · obtain rfl := List.mem_singleton.1 he
      exact
        { missing := fun hj => hmissing (hnew.joined.2 (Or.inl hj))
          bare := rfl
          drawn := h.grows.future hfuture
          spent := h.fresh.spent hgrows (Nat.lt_succ_self _)
          apart := h.fresh.unstored _ hfuture
          stored := ⟨hs, ht⟩
          kind := hkind }

/-- An edge is merged. -/
theorem mergeEdge (h : WorkedOn start label g) (l : String) {s t : Id} (hs : g.nodes.contains s)
    (ht : g.nodes.contains t) (hkind : l = EdgeLabel.hasCode ∨ g.label? s = some label) :
    WorkedOn start label (g.mergeEdge l s t).2 := by
  obtain ⟨v, hv⟩ := Table.contains_iff.1 hs
  obtain ⟨w, hw⟩ := Table.contains_iff.1 ht
  refine ⟨h.fresh.mergeEdge l hv hw, h.grows.trans (grows_mergeEdge g l s t), fun id hid => ?_, ?_⟩
  · rw [label?_mergeEdge] at hid
    exact h.drawn id hid
  · unfold Graph.mergeEdge
    by_cases hedge : g.hasEdge l s t = true
    · rw [if_pos hedge]
      exact h.additions
    · rw [if_neg hedge]
      exact h.addEdge hs ht hkind fun hj => hedge (hasEdge_iff.2 hj)

/-- Nodes are rewritten in place. -/
theorem rewrite {F : Id → Properties → Properties} (h : WorkedOn start label g)
    (hrw : Rewrites g g' F) (hgrows : g.Grows g') : WorkedOn start label g' := by
  refine h.of_filter (hrw.fresh h.fresh) hgrows (fun id hid => h.drawn id ?_) (fun id _ hid => ?_)
    (fun _ => true) ?_ (fun _ _ => rfl) fun e _ _ _ _ => ⟨hrw.label _, hrw.label _⟩
  · rwa [hrw.label] at hid
  · rw [hrw.nodes, hid]
    rfl
  · rw [hrw.edges, List.filter_true]

/-- A node is added, whose id is that of no other node and of no edge. -/
theorem addVertex (h : WorkedOn start label g) (v : Vertex) :
    WorkedOn start label (g.addVertex v).2 := by
  have hfuture := future_addVertex g v
  have hother : ∀ id, ¬ g.Future id → (g.addVertex v).2.nodes.get? id = g.nodes.get? id :=
    fun _ hid => get?_addVertex_of_not_future v hid
  refine h.of_filter (h.fresh.addVertex v) ⟨rfl, Nat.le_succ _⟩ (fun id hid => ?_)
    (fun id hid hnone => (hother id hid).trans hnone) (fun _ => true)
    (List.filter_true _).symm (fun _ _ => rfl) fun e _ _ hs ht => ?_
  · by_cases hid' : (g.addVertex v).1 = id
    · exact h.grows.future (hid' ▸ hfuture)
    · rw [label?_addVertex_of_ne hid'] at hid
      exact h.drawn id hid
  · obtain ⟨u, hu⟩ := Table.contains_iff.1 hs
    obtain ⟨w, hw⟩ := Table.contains_iff.1 ht
    unfold label?
    rw [hother _ (h.fresh.not_future hu), hother _ (h.fresh.not_future hw)]
    exact ⟨rfl, rfl⟩

/-- Nodes of the hierarchy go, with their edges.  No edge at the start is at one of them. -/
theorem removeNodes (h : WorkedOn start label g) (hstart : start.Fresh) {ids : List Id}
    (hids : ∀ id ∈ ids, g.label? id = some label) (hfresh : (ids.foldl removeNode g).Fresh)
    (hgrows : g.Grows (ids.foldl removeNode g)) :
    WorkedOn start label (ids.foldl removeNode g) := by
  have hstay : ∀ id, id ∉ ids → (ids.foldl removeNode g).label? id = g.label? id := by
    intro id hid
    unfold label?
    rw [get?_removeNodes, if_neg hid]
  refine h.of_filter hfresh hgrows (fun id hid => h.drawn id ?_) (fun id _ hnone => ?_) _
    (edges_removeNodes g ids) (fun e he => ?_) fun e _ hk _ _ => ?_
  · by_cases hmem : id ∈ ids
    · exact hids id hmem
    · rwa [hstay id hmem] at hid
  · rw [get?_removeNodes, hnone]
    split <;> rfl
  · have hj : start.Joined e.label e.source e.target := joined_iff.2 ⟨e, he, rfl, rfl, rfl⟩
    refine decide_eq_true ⟨fun hmem => ?_, fun hmem => ?_⟩
    · exact (hstart.unjoined _ (h.drawn _ (hids _ hmem)) _ _).1 hj
    · exact (hstart.unjoined _ (h.drawn _ (hids _ hmem)) _ _).2 hj
  · obtain ⟨hs, ht⟩ := of_decide_eq_true hk
    exact ⟨hstay _ hs, hstay _ ht⟩

/-- A change of whatever kind that is made for the hierarchy. -/
theorem change (h : WorkedOn start label g) (hstart : start.Fresh)
    (hunlinked : ∀ s t, ¬ start.Joined EdgeLabel.cloneOf s t)
    (hchange : Change (· = label) g g') : WorkedOn start label g' := by
  have hgrows := hchange.grows
  have hfresh := hchange.fresh h.fresh
  cases hchange with
  | rewrite hrw => exact h.rewrite hrw hgrows
  | mergeEdge l hs ht hown =>
      refine h.mergeEdge l hs ht (hown.imp_right ?_)
      rintro ⟨K, rfl, hlabel⟩
      exact hlabel
  | addVertex => exact h.addVertex _
  | removeNodes hids =>
      refine h.removeNodes hstart (fun id hid => ?_) hfresh hgrows
      obtain ⟨K, rfl, hlabel⟩ := hids id hid
      exact hlabel
  | dropLinks test =>
      refine h.of_filter hfresh hgrows h.drawn (fun _ _ hnone => hnone) _ rfl (fun e he => ?_)
        fun _ _ _ _ _ => ⟨rfl, rfl⟩
      have hlabel : e.label ≠ EdgeLabel.cloneOf := fun hl =>
        hunlinked e.source e.target (joined_iff.2 ⟨e, he, hl, rfl, rfl⟩)
      simp [hlabel]

/-- A mutation that names no other hierarchy. -/
theorem mutate (h : WorkedOn start label g) (hstart : start.Fresh)
    (hunlinked : ∀ s t, ¬ start.Joined EdgeLabel.cloneOf s t) {m : Mutation}
    (hworks : WorksFor (· = label) m) : WorkedOn start label (g.mutate m).2 :=
  (changes_mutate g m hworks).kept (fun _ _ hchange hg => hg.change hstart hunlinked hchange) h

end WorkedOn
end Graph
end InstanceHierarchy
