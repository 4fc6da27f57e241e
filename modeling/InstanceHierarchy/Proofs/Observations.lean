import InstanceHierarchy.Graph.Answer
import Mathlib.Data.List.Count
import Mathlib.Data.List.Nodup

/-!
# What can be seen of a graph

The operations are described by what they do to two observations: the vertex stored under an id,
and the number of edges with a label between two ids.  The order of the edges is not observed, nor
are the ids of edges.
-/

namespace InstanceHierarchy

/-- The code among some properties, if it is a text. -/
def codeIn (ps : Properties) : Option String := (ps.get? Property.code).bind Json.text?

/-- The code under which a node is cloned: a node without a code counts as one with the empty
code. -/
def Node.cloneCode (n : Node) : String := (n.text? Property.code).getD ""

/-- The vertex with a property set. -/
def Vertex.set (v : Vertex) (key : String) (value : Json) : Vertex :=
  { v with properties := v.properties.insert key value }

/-- The vertex with a property dropped. -/
def Vertex.unset (v : Vertex) (key : String) : Vertex :=
  { v with properties := v.properties.erase key }

theorem Table.insert_insert_self (t : Table α) (k : String) (v : α) :
    (t.insert k v).insert k v = t.insert k v := by
  apply Table.ext_get?
  intro k'
  rw [Table.get?_insert, Table.get?_insert]
  split <;> rfl

theorem Table.erase_erase_self (t : Table α) (k : String) : (t.erase k).erase k = t.erase k := by
  apply Table.ext_get?
  intro k'
  rw [Table.get?_erase, Table.get?_erase]
  split <;> rfl

theorem Table.erase_insert_self (t : Table α) (k : String) (v : α) :
    (t.insert k v).erase k = t.erase k := by
  apply Table.ext_get?
  intro k'
  rw [Table.get?_erase, Table.get?_erase, Table.get?_insert]
  split <;> rfl

theorem Table.insert_erase_self (t : Table α) (k : String) (v : α) :
    (t.erase k).insert k v = t.insert k v := by
  apply Table.ext_get?
  intro k'
  rw [Table.get?_insert, Table.get?_insert, Table.get?_erase]
  split <;> rfl

theorem Table.erase_insert_of_ne (t : Table α) {k k' : String} (v : α) (h : k ≠ k') :
    (t.insert k v).erase k' = (t.erase k').insert k v := by
  apply Table.ext_get?
  intro x
  rw [Table.get?_erase, Table.get?_insert, Table.get?_insert, Table.get?_erase]
  by_cases hx : k' = x
  · rw [if_pos hx, if_neg fun hk => h (hk.trans hx.symm), if_pos hx]
  · rw [if_neg hx, if_neg hx]

theorem Table.erase_eq_self {t : Table α} {k : String} (h : t.get? k = none) : t.erase k = t := by
  apply Table.ext_get?
  intro k'
  rw [Table.get?_erase]
  split
  · rename_i hk
    rw [← hk, h]
  · rfl

/-- Ids of growing length. -/
def longerAndLonger (start n : Nat) : Id := String.ofList (List.replicate (start + n) 'n')

namespace Graph

/-- The label of the node with an id. -/
def label? (g : Graph) (id : Id) : Option String := (g.nodes.get? id).map (·.label)

/-- The id names a node with the label and the code. -/
def Coded (g : Graph) (label code : String) (id : Id) : Prop :=
  ∃ ps, g.nodes.get? id = some ⟨label, ps⟩ ∧ codeIn ps = some code

/-- The number of edges with a label between two ids. -/
def tally (g : Graph) (label : String) (a b : Id) : Nat :=
  g.edges.countP fun e => e.label = label ∧ e.source = a ∧ e.target = b

/-- An edge with a label leads from one id to another. -/
def Joined (g : Graph) (label : String) (a b : Id) : Prop := 0 < g.tally label a b

/-- The id has not been drawn from the graph's supply yet. -/
def Future (g : Graph) (id : Id) : Prop :=
  ∃ n, g.supply.drawn ≤ n ∧ g.supply.ident n = id

/-- The ids that will be drawn are new: distinct, and not in the graph. -/
structure Fresh (g : Graph) : Prop where
  distinct : ∀ i j, g.supply.drawn ≤ i → g.supply.drawn ≤ j →
    g.supply.ident i = g.supply.ident j → i = j
  unstored : ∀ id, g.Future id → g.nodes.get? id = none
  unjoined : ∀ id, g.Future id → ∀ label other,
    ¬ g.Joined label id other ∧ ¬ g.Joined label other id

/-! ## Reading the observations -/

theorem label?_eq_some_iff {g : Graph} {id : Id} {label : String} :
    g.label? id = some label ↔ ∃ ps, g.nodes.get? id = some ⟨label, ps⟩ := by
  unfold label?
  constructor
  · intro h
    obtain ⟨v, hv, rfl⟩ := Option.map_eq_some_iff.1 h
    exact ⟨v.properties, hv⟩
  · rintro ⟨ps, h⟩
    simp [h]

theorem label_of_get? {g : Graph} {id : Id} {v : Vertex} (h : g.nodes.get? id = some v) :
    g.label? id = some v.label := label?_eq_some_iff.2 ⟨v.properties, h⟩

theorem isLabelled_iff {g : Graph} {id : Id} {label : String} :
    g.isLabelled id label = true ↔ g.label? id = some label := by
  unfold isLabelled label?
  cases g.nodes.get? id <;> simp

theorem Coded.label {g : Graph} {label code : String} {id : Id} (h : g.Coded label code id) :
    g.label? id = some label := by
  obtain ⟨ps, hps, -⟩ := h
  exact label?_eq_some_iff.2 ⟨ps, hps⟩

/-- A node has one label and at most one code. -/
theorem Coded.functional {g : Graph} {l l' c c' : String} {id : Id} (h : g.Coded l c id)
    (h' : g.Coded l' c' id) : l = l' ∧ c = c' := by
  obtain ⟨ps, hps, hc⟩ := h
  obtain ⟨ps', hps', hc'⟩ := h'
  rw [hps] at hps'
  cases hps'
  rw [hc] at hc'
  exact ⟨rfl, Option.some.inj hc'⟩

theorem node?_eq_some {g : Graph} {id : Id} {n : Node} :
    g.node? id = some n ↔ n.id = id ∧ g.nodes.get? id = some n.vertex := by
  unfold node?
  rw [Option.map_eq_some_iff]
  constructor
  · rintro ⟨v, hv, rfl⟩
    exact ⟨rfl, hv⟩
  · rintro ⟨rfl, hv⟩
    exact ⟨n.vertex, hv, rfl⟩

theorem hasEdge_iff {g : Graph} {label : String} {a b : Id} :
    g.hasEdge label a b = true ↔ g.Joined label a b := by
  unfold hasEdge Joined tally
  rw [List.countP_pos_iff, List.any_eq_true]

theorem joined_iff {g : Graph} {label : String} {a b : Id} :
    g.Joined label a b ↔ ∃ e ∈ g.edges, e.label = label ∧ e.source = a ∧ e.target = b := by
  unfold Joined tally
  rw [List.countP_pos_iff]
  simp

theorem mem_targets {g : Graph} {label : String} {a b : Id} :
    b ∈ g.targets a label ↔ g.Joined label a b := by
  rw [joined_iff]
  simp [targets, and_assoc]

theorem mem_sources {g : Graph} {label : String} {a b : Id} :
    a ∈ g.sources b label ↔ g.Joined label a b := by
  rw [joined_iff]
  simp only [sources, List.mem_map, List.mem_filter, decide_eq_true_eq]
  constructor
  · rintro ⟨e, ⟨he, hl, ht⟩, hs⟩
    exact ⟨e, he, hl, hs, ht⟩
  · rintro ⟨e, he, hl, hs, ht⟩
    exact ⟨e, ⟨he, hl, ht⟩, hs⟩

/-- An id is listed among the sources once for each edge. -/
theorem count_sources (g : Graph) (label : String) (a b : Id) :
    (g.sources b label).count a = g.tally label a b := by
  unfold sources tally
  rw [List.count, List.countP_map, List.countP_filter]
  apply List.countP_congr
  intro e _
  simp only [Function.comp_apply, beq_iff_eq, Bool.and_eq_true, decide_eq_true_eq]
  tauto

theorem mem_nodeList {g : Graph} {n : Node} :
    n ∈ g.nodeList ↔ g.nodes.get? n.id = some n.vertex := by
  unfold nodeList
  rw [Table.get?_eq_some_iff, List.mem_map]
  constructor
  · rintro ⟨e, he, rfl⟩
    exact he
  · intro h
    exact ⟨(n.id, n.vertex), h, rfl⟩

theorem mem_nodesWithLabel {g : Graph} {label : String} {n : Node} :
    n ∈ g.nodesWithLabel label ↔ n.label = label ∧ g.nodes.get? n.id = some n.vertex := by
  unfold nodesWithLabel
  rw [List.mem_filter, mem_nodeList, decide_eq_true_eq, and_comm]

theorem mem_idsWithLabel {g : Graph} {label : String} {id : Id} :
    id ∈ g.idsWithLabel label ↔ g.label? id = some label := by
  unfold idsWithLabel
  rw [List.mem_map, label?_eq_some_iff]
  constructor
  · rintro ⟨n, hn, rfl⟩
    obtain ⟨rfl, h⟩ := mem_nodesWithLabel.1 hn
    exact ⟨n.properties, h⟩
  · rintro ⟨ps, h⟩
    exact ⟨⟨id, label, ps⟩, mem_nodesWithLabel.2 ⟨rfl, h⟩, rfl⟩

/-- The ids of all nodes ascend. -/
theorem pairwise_nodeList (g : Graph) : (g.nodeList.map (·.id)).Pairwise (· < ·) := by
  have hids : g.nodeList.map (·.id) = g.nodes.entries.map (·.1) := by
    unfold nodeList
    rw [List.map_map]
    rfl
  rw [hids]
  exact List.pairwise_map.2 g.nodes.ordered

/-- Every id is listed once. -/
theorem nodup_idsWithLabel (g : Graph) (label : String) : (g.idsWithLabel label).Nodup := by
  have hkeys : (g.nodeList.map (·.id)).Nodup :=
    g.pairwise_nodeList.imp fun h => Entries.ne_of_lt h
  exact hkeys.sublist (List.filter_sublist.map _)

/-- A node is known by its id. -/
theorem nodesWithLabel_inj {g : Graph} {label : String} {n m : Node}
    (hn : n ∈ g.nodesWithLabel label) (hm : m ∈ g.nodesWithLabel label) (h : n.id = m.id) : n = m :=
  List.inj_on_of_nodup_map (g.nodup_idsWithLabel label) hn hm h

theorem mem_idsWithCode {g : Graph} {label code : String} {id : Id} :
    id ∈ g.idsWithCode label code ↔ g.Coded label code id := by
  unfold idsWithCode
  rw [List.mem_map]
  constructor
  · rintro ⟨n, hn, rfl⟩
    obtain ⟨hn, hc⟩ := List.mem_filter.1 hn
    obtain ⟨rfl, h⟩ := mem_nodesWithLabel.1 hn
    exact ⟨n.properties, h, decide_eq_true_eq.mp hc⟩
  · rintro ⟨ps, h, hc⟩
    refine ⟨⟨id, label, ps⟩, List.mem_filter.2 ⟨mem_nodesWithLabel.2 ⟨rfl, h⟩, ?_⟩, rfl⟩
    exact decide_eq_true hc

theorem idsWithCode_eq_nil_iff {g : Graph} {label code : String} :
    g.idsWithCode label code = [] ↔ ∀ id, ¬ g.Coded label code id := by
  rw [List.eq_nil_iff_forall_not_mem]
  exact forall_congr' fun _ => not_congr mem_idsWithCode

theorem mem_idsWithCodeIn {g : Graph} {label : String} {codes : List String} {id : Id} :
    id ∈ g.idsWithCodeIn label codes ↔ ∃ code ∈ codes, g.Coded label code id := by
  unfold idsWithCodeIn
  rw [List.mem_map]
  constructor
  · rintro ⟨n, hn, rfl⟩
    obtain ⟨hn, hc⟩ := List.mem_filter.1 hn
    obtain ⟨rfl, h⟩ := mem_nodesWithLabel.1 hn
    cases ht : n.text? Property.code with
    | none => simp [ht] at hc
    | some code =>
        simp only [ht, decide_eq_true_eq] at hc
        exact ⟨code, hc, n.properties, h, ht⟩
  · rintro ⟨code, hmem, ps, h, hc⟩
    have ht : (Node.mk id label ps).text? Property.code = some code := hc
    refine ⟨⟨id, label, ps⟩, List.mem_filter.2 ⟨mem_nodesWithLabel.2 ⟨rfl, h⟩, ?_⟩, rfl⟩
    simp [ht, hmem]

theorem mem_idsWithFlag_iff {g : Graph} {label flag : String} {id : Id} :
    id ∈ g.idsWithFlag label flag ↔
      ∃ ps, g.nodes.get? id = some ⟨label, ps⟩ ∧ (ps.get? flag).bind Json.bool? = some true := by
  unfold idsWithFlag
  rw [List.mem_map]
  constructor
  · rintro ⟨n, hn, rfl⟩
    obtain ⟨hn, hflag⟩ := List.mem_filter.1 hn
    obtain ⟨rfl, h⟩ := mem_nodesWithLabel.1 hn
    exact ⟨n.properties, h, of_decide_eq_true hflag⟩
  · rintro ⟨ps, h, hflag⟩
    exact ⟨⟨id, label, ps⟩, List.mem_filter.2
      ⟨mem_nodesWithLabel.2 ⟨rfl, h⟩, decide_eq_true hflag⟩, rfl⟩

/-- The nodes that pass a test are those of the part of the node table that passes it. -/
theorem filter_nodeList (g : Graph) (p : Vertex → Bool) :
    (g.nodeList.filter fun n => p n.vertex) =
      (g.nodes.filter fun _ v => p v).entries.map fun e => e.2.node e.1 := by
  unfold nodeList Table.filter
  rw [List.filter_map]
  rfl

/-- Graphs that store the same vertices that pass a test list the same nodes that pass it. -/
theorem filter_nodeList_congr {g g' : Graph} {p : Vertex → Bool}
    (h : ∀ id v, p v = true → (g'.nodes.get? id = some v ↔ g.nodes.get? id = some v)) :
    (g'.nodeList.filter fun n => p n.vertex) = g.nodeList.filter fun n => p n.vertex := by
  -- only the part of the node table that passes is read
  have htable : (g'.nodes.filter fun _ v => p v) = g.nodes.filter fun _ v => p v := by
    apply Table.ext_get?
    intro id
    apply Option.ext
    intro v
    rw [Table.get?_filter, Table.get?_filter, Option.filter_eq_some_iff, Option.filter_eq_some_iff]
    constructor
    · rintro ⟨hv, hp⟩
      exact ⟨(h id v hp).1 hv, hp⟩
    · rintro ⟨hv, hp⟩
      exact ⟨(h id v hp).2 hv, hp⟩
  rw [filter_nodeList, filter_nodeList, htable]

theorem nodesWithLabel_congr {g g' : Graph} {label : String}
    (h : ∀ id v, v.label = label → (g'.nodes.get? id = some v ↔ g.nodes.get? id = some v)) :
    g'.nodesWithLabel label = g.nodesWithLabel label :=
  filter_nodeList_congr (p := fun v => v.label = label) fun id v hv =>
    h id v (of_decide_eq_true hv)

/-- Graphs in which the same nodes have a label and a code list them alike. -/
theorem idsWithCode_congr {g g' : Graph} {label code : String}
    (h : ∀ id v, v.label = label → codeIn v.properties = some code →
      (g'.nodes.get? id = some v ↔ g.nodes.get? id = some v)) :
    g'.idsWithCode label code = g.idsWithCode label code := by
  unfold idsWithCode nodesWithLabel
  rw [List.filter_filter, List.filter_filter]
  refine congrArg (List.map _) (filter_nodeList_congr
    (p := fun v => decide (codeIn v.properties = some code) && decide (v.label = label))
    fun id v hv => ?_)
  obtain ⟨hc, hl⟩ := Bool.and_eq_true_iff.1 hv
  exact h id v (of_decide_eq_true hl) (of_decide_eq_true hc)

/-! ## What the operations do to the observations -/

/-- Nothing is taken back from the supply. -/
structure Grows (g g' : Graph) : Prop where
  ident : g'.supply.ident = g.supply.ident
  drawn : g.supply.drawn ≤ g'.supply.drawn

theorem Grows.of_eq {g g' : Graph} (h : g'.supply = g.supply) : g.Grows g' :=
  ⟨congrArg IdSupply.ident h, Nat.le_of_eq (congrArg IdSupply.drawn h).symm⟩

theorem Grows.trans {g g' g'' : Graph} (h : g.Grows g') (h' : g'.Grows g'') : g.Grows g'' :=
  ⟨h'.ident.trans h.ident, Nat.le_trans h.drawn h'.drawn⟩

theorem Grows.future {g g' : Graph} (h : g.Grows g') {id : Id} (hid : g'.Future id) :
    g.Future id := by
  obtain ⟨n, hn, rfl⟩ := hid
  exact ⟨n, Nat.le_trans h.drawn hn, by rw [h.ident]⟩

/-- Ids stay new under an operation that uses, besides the ids of the graph, only drawn ones. -/
theorem Fresh.of_grows {g g' : Graph} (hg : g.Fresh) (h : g.Grows g')
    (hnodes : ∀ id, g'.Future id → g.nodes.get? id = none → g'.nodes.get? id = none)
    (hedges : ∀ label a b, g'.Joined label a b →
      g.Joined label a b ∨ (¬ g'.Future a ∧ ¬ g'.Future b)) : g'.Fresh := by
  constructor
  · intro i j hi hj heq
    rw [h.ident] at heq
    exact hg.distinct i j (Nat.le_trans h.drawn hi) (Nat.le_trans h.drawn hj) heq
  · intro id hid
    exact hnodes id hid (hg.unstored id (h.future hid))
  · intro id hid label other
    constructor
    · intro hj
      rcases hedges label id other hj with hold | ⟨hnew, -⟩
      · exact (hg.unjoined id (h.future hid) label other).1 hold
      · exact hnew hid
    · intro hj
      rcases hedges label other id hj with hold | ⟨-, hnew⟩
      · exact (hg.unjoined id (h.future hid) label other).2 hold
      · exact hnew hid

/-- A stored node's id has been drawn, if it was drawn at all. -/
theorem Fresh.not_future {g : Graph} (hg : g.Fresh) {id : Id} {v : Vertex}
    (h : g.nodes.get? id = some v) : ¬ g.Future id := by
  intro hid
  rw [hg.unstored id hid] at h
  cases h

/-- The id that has just been drawn will not be drawn again. -/
theorem Fresh.spent {g g' : Graph} (hg : g.Fresh) (h : g.Grows g')
    (hdrawn : g.supply.drawn < g'.supply.drawn) :
    ¬ g'.Future (g.supply.ident g.supply.drawn) := by
  rintro ⟨n, hn, heq⟩
  rw [h.ident] at heq
  have hsame : n = g.supply.drawn := hg.distinct _ _ (by omega) (Nat.le_refl _) heq
  omega

theorem length_longerAndLonger (start n : Nat) : (longerAndLonger start n).length = start + n := by
  unfold longerAndLonger
  rw [String.length_ofList, List.length_replicate]

/-- An id that is shorter than those of the supply will not be drawn. -/
theorem not_future_of_short {g : Graph} {start : Nat} {id : Id}
    (hsupply : g.supply.ident = longerAndLonger start) (h : id.length < start) :
    ¬ g.Future id := by
  rintro ⟨n, -, rfl⟩
  rw [hsupply, length_longerAndLonger] at h
  omega

/-- Ids that grow longer and longer are new to a graph that holds only shorter ones. -/
theorem fresh_of_short {g : Graph} {start : Nat} (hsupply : g.supply.ident = longerAndLonger start)
    (hnodes : ∀ e ∈ g.nodes.entries, e.1.length < start)
    (hedges : ∀ e ∈ g.edges, e.source.length < start ∧ e.target.length < start) : g.Fresh := by
  -- the ids to come are told from one another, and from the ids in use, by their length
  constructor
  · intro i j _ _ heq
    have h := congrArg String.length heq
    rw [hsupply, length_longerAndLonger, length_longerAndLonger] at h
    omega
  · intro id hid
    cases hv : g.nodes.get? id with
    | none => rfl
    | some v =>
        have h : id.length < start := hnodes _ (Table.get?_eq_some_iff.1 hv)
        exact absurd hid (not_future_of_short hsupply h)
  · intro id hid label other
    constructor
    · intro hj
      obtain ⟨e, he, -, rfl, -⟩ := joined_iff.1 hj
      exact not_future_of_short hsupply (hedges e he).1 hid
    · intro hj
      obtain ⟨e, he, -, -, rfl⟩ := joined_iff.1 hj
      exact not_future_of_short hsupply (hedges e he).2 hid

theorem tally_of_edges_eq {g g' : Graph} (h : g'.edges = g.edges) (label : String) (a b : Id) :
    g'.tally label a b = g.tally label a b := by
  unfold tally
  rw [h]

theorem tally_addEdge (g : Graph) (l : String) (s t : Id) (ps : Properties) (label : String)
    (a b : Id) :
    (g.addEdge l s t ps).2.tally label a b =
      g.tally label a b + if l = label ∧ s = a ∧ t = b then 1 else 0 := by
  unfold addEdge tally
  simp [List.countP_append, List.countP_singleton]

theorem tally_mergeEdge (g : Graph) (l : String) (s t : Id) (label : String) (a b : Id) :
    (g.mergeEdge l s t).2.tally label a b =
      if l = label ∧ s = a ∧ t = b then max 1 (g.tally label a b) else g.tally label a b := by
  unfold mergeEdge
  by_cases hedge : g.hasEdge l s t = true
  · rw [if_pos hedge]
    split
    · rename_i hsame
      obtain ⟨rfl, rfl, rfl⟩ := hsame
      have hpos : 0 < g.tally l s t := hasEdge_iff.1 hedge
      exact (Nat.max_eq_right hpos).symm
    · rfl
  · rw [if_neg hedge]
    show (g.addEdge l s t .empty).2.tally label a b = _
    rw [tally_addEdge]
    split
    · rename_i hsame
      obtain ⟨rfl, rfl, rfl⟩ := hsame
      -- no such edge was there, so the new one is the only one
      have hzero : ¬ 0 < g.tally l s t := fun h => hedge (hasEdge_iff.2 h)
      omega
    · rfl

theorem joined_mergeEdge {g : Graph} {l : String} {s t : Id} {label : String} {a b : Id} :
    (g.mergeEdge l s t).2.Joined label a b ↔
      g.Joined label a b ∨ (l = label ∧ s = a ∧ t = b) := by
  unfold Joined
  rw [tally_mergeEdge]
  split
  · rename_i h
    simp only [h, and_self, or_true, iff_true]
    omega
  · rename_i h
    simp only [h, or_false]

theorem nodes_mergeEdge (g : Graph) (l : String) (s t : Id) :
    (g.mergeEdge l s t).2.nodes = g.nodes := by
  unfold mergeEdge
  split <;> rfl

theorem mergeEdge_of_joined {g : Graph} {label : String} {a b : Id} (h : g.Joined label a b) :
    g.mergeEdge label a b = (none, g) :=
  if_pos (hasEdge_iff.2 h)

theorem node?_mergeEdge (g : Graph) (label : String) (a b id : Id) :
    (g.mergeEdge label a b).2.node? id = g.node? id := by
  unfold node?
  rw [nodes_mergeEdge]

theorem idsWithCode_mergeEdge (g : Graph) (label : String) (a b : Id) (target code : String) :
    (g.mergeEdge label a b).2.idsWithCode target code = g.idsWithCode target code :=
  idsWithCode_congr fun id v _ _ => by rw [nodes_mergeEdge]

theorem coded_mergeEdge {g : Graph} {l : String} {s t : Id} {label c : String} {x : Id} :
    (g.mergeEdge l s t).2.Coded label c x ↔ g.Coded label c x := by
  unfold Coded
  rw [nodes_mergeEdge]

theorem label?_mergeEdge (g : Graph) (l : String) (s t x : Id) :
    (g.mergeEdge l s t).2.label? x = g.label? x := by
  unfold label?
  rw [nodes_mergeEdge]

theorem grows_mergeEdge (g : Graph) (l : String) (s t : Id) : g.Grows (g.mergeEdge l s t).2 := by
  unfold mergeEdge
  split
  · exact .of_eq rfl
  · exact ⟨rfl, Nat.le_succ _⟩

/-- An edge between stored nodes keeps the supply new. -/
theorem Fresh.mergeEdge {g : Graph} (hg : g.Fresh) {s t : Id} {v w : Vertex} (l : String)
    (hs : g.nodes.get? s = some v) (ht : g.nodes.get? t = some w) :
    (g.mergeEdge l s t).2.Fresh := by
  have hgrows := grows_mergeEdge g l s t
  refine hg.of_grows hgrows ?_ ?_
  · intro id _ hid
    rw [nodes_mergeEdge]
    exact hid
  · intro label a b h
    rcases joined_mergeEdge.1 h with h | ⟨-, rfl, rfl⟩
    · exact Or.inl h
    · exact Or.inr ⟨fun hf => hg.not_future hs (hgrows.future hf),
        fun hf => hg.not_future ht (hgrows.future hf)⟩

theorem get?_addVertex (g : Graph) (v : Vertex) (id : Id) :
    (g.addVertex v).2.nodes.get? id =
      if (g.addVertex v).1 = id then some v else g.nodes.get? id :=
  Table.get?_insert g.nodes _ id v

theorem future_addVertex (g : Graph) (v : Vertex) : g.Future (g.addVertex v).1 :=
  ⟨g.supply.drawn, Nat.le_refl _, rfl⟩

/-- Under an id that is not going to be drawn there is what there was. -/
theorem get?_addVertex_of_not_future {g : Graph} (v : Vertex) {id : Id} (h : ¬ g.Future id) :
    (g.addVertex v).2.nodes.get? id = g.nodes.get? id := by
  rw [get?_addVertex, if_neg]
  rintro rfl
  exact h (future_addVertex g v)

theorem node?_addVertex {g : Graph} {v : Vertex} {id : Id} (h : ¬ g.Future id) :
    (g.addVertex v).2.node? id = g.node? id := by
  unfold node?
  rw [get?_addVertex_of_not_future v h]

theorem Fresh.addVertex {g : Graph} (hg : g.Fresh) (v : Vertex) : (g.addVertex v).2.Fresh := by
  have hgrows : g.Grows (g.addVertex v).2 := ⟨rfl, Nat.le_succ _⟩
  refine hg.of_grows hgrows ?_ fun _ _ _ h => Or.inl h
  intro id hfuture hid
  rw [get?_addVertex, if_neg]
  · exact hid
  · rintro rfl
    exact hg.spent hgrows (Nat.lt_succ_self _) hfuture

theorem get?_setProperty (g : Graph) (id : Id) (key : String) (value : Json) (x : Id) :
    (g.setProperty id key value).nodes.get? x =
      if id = x then (g.nodes.get? x).map (·.set key value) else g.nodes.get? x :=
  Table.get?_modify g.nodes id x _

theorem get?_dropProperty (g : Graph) (id : Id) (key : String) (x : Id) :
    (g.dropProperty id key).nodes.get? x =
      if id = x then (g.nodes.get? x).map (·.unset key) else g.nodes.get? x :=
  Table.get?_modify g.nodes id x _

/-! ### Setting properties of several nodes -/

/-- Setting a property once more to the value it has changes nothing. -/
theorem set_set_self (v : Vertex) (key : String) (value : Json) :
    (v.set key value).set key value = v.set key value := by
  unfold Vertex.set
  simp only [Table.insert_insert_self]

theorem unset_unset_self (v : Vertex) (key : String) :
    (v.unset key).unset key = v.unset key := by
  unfold Vertex.unset
  simp only [Table.erase_erase_self]

/-- Changing the nodes of a list in turn changes each of them once, if changing a node twice is
changing it once. -/
theorem get?_foldl_change {change : Graph → Id → Graph} {f : Id → Vertex → Vertex}
    (hget : ∀ g id x, (change g id).nodes.get? x =
      if id = x then (g.nodes.get? x).map (f x) else g.nodes.get? x)
    (hself : ∀ x v, f x (f x v) = f x v) (ids : List Id) (g : Graph) (x : Id) :
    (ids.foldl change g).nodes.get? x =
      if x ∈ ids then (g.nodes.get? x).map (f x) else g.nodes.get? x := by
  induction ids generalizing g with
  | nil => simp
  | cons id rest ih =>
      rw [List.foldl_cons, ih, hget]
      -- the id may come again in the rest, where changing it once more changes nothing
      by_cases hid : id = x
      · subst hid
        cases g.nodes.get? id <;> simp [hself]
      · have hne : x ≠ id := fun h => hid h.symm
        simp [hid, hne]

/-- What one step leaves alone is left alone by the steps of a whole list. -/
theorem foldl_keeps (view : Graph → β) (step : Graph → Id → Graph)
    (h : ∀ g id, view (step g id) = view g) (ids : List Id) (g : Graph) :
    view (ids.foldl step g) = view g := by
  induction ids generalizing g with
  | nil => rfl
  | cons id rest ih => rw [List.foldl_cons, ih, h]

theorem get?_setProperties (g : Graph) (ids : List Id) (key : String) (value : Json) (x : Id) :
    (g.setProperties ids key value).nodes.get? x =
      if x ∈ ids then (g.nodes.get? x).map (·.set key value) else g.nodes.get? x :=
  get?_foldl_change (f := fun _ v => v.set key value)
    (fun g id x => get?_setProperty g id key value x) (fun _ v => set_set_self v key value) ids g x

theorem edges_setProperties (g : Graph) (ids : List Id) (key : String) (value : Json) :
    (g.setProperties ids key value).edges = g.edges :=
  foldl_keeps edges (fun g id => g.setProperty id key value) (fun _ _ => rfl) ids g

theorem supply_setProperties (g : Graph) (ids : List Id) (key : String) (value : Json) :
    (g.setProperties ids key value).supply = g.supply :=
  foldl_keeps supply (fun g id => g.setProperty id key value) (fun _ _ => rfl) ids g

theorem get?_dropProperties (g : Graph) (ids : List Id) (key : String) (x : Id) :
    (ids.foldl (fun g id => g.dropProperty id key) g).nodes.get? x =
      if x ∈ ids then (g.nodes.get? x).map (·.unset key) else g.nodes.get? x :=
  get?_foldl_change (f := fun _ v => v.unset key)
    (fun g id x => get?_dropProperty g id key x) (fun _ v => unset_unset_self v key) ids g x

theorem edges_dropProperties (g : Graph) (ids : List Id) (key : String) :
    (ids.foldl (fun g id => g.dropProperty id key) g).edges = g.edges :=
  foldl_keeps edges (fun g id => g.dropProperty id key) (fun _ _ => rfl) ids g

theorem supply_dropProperties (g : Graph) (ids : List Id) (key : String) :
    (ids.foldl (fun g id => g.dropProperty id key) g).supply = g.supply :=
  foldl_keeps supply (fun g id => g.dropProperty id key) (fun _ _ => rfl) ids g

/-- The number of children that is stored with a node. -/
def childCount (g : Graph) (id : Id) : Json := .int (g.sources id EdgeLabel.hasParent).length

theorem edges_countChildren (g : Graph) (ids : List Id) : (g.countChildren ids).edges = g.edges :=
  foldl_keeps edges
    (fun g id => g.setProperty id Property.numberOfChildren (g.childCount id))
    (fun _ _ => rfl) ids g

theorem supply_countChildren (g : Graph) (ids : List Id) :
    (g.countChildren ids).supply = g.supply :=
  foldl_keeps supply
    (fun g id => g.setProperty id Property.numberOfChildren (g.childCount id))
    (fun _ _ => rfl) ids g

/-- Children are counted along edges, which counting leaves alone. -/
theorem get?_countChildren (g : Graph) (ids : List Id) (x : Id) :
    (g.countChildren ids).nodes.get? x =
      if x ∈ ids then (g.nodes.get? x).map (·.set Property.numberOfChildren (g.childCount x))
      else g.nodes.get? x := by
  induction ids generalizing g with
  | nil => simp [countChildren]
  | cons id rest ih =>
      have hcons : g.countChildren (id :: rest) =
          (g.setProperty id Property.numberOfChildren (g.childCount id)).countChildren rest := rfl
      -- a number that is stored with one node does not change the count for another one
      have hsame : (g.setProperty id Property.numberOfChildren (g.childCount id)).childCount x =
          g.childCount x := rfl
      rw [hcons, ih, get?_setProperty, hsame]
      by_cases hid : id = x
      · subst hid
        cases g.nodes.get? id <;> simp [set_set_self]
      · have hne : x ≠ id := fun h => hid h.symm
        simp [hid, hne]

/-! ### Removing nodes and edges -/

theorem get?_removeNode (g : Graph) (id x : Id) :
    (g.removeNode id).nodes.get? x = if id = x then none else g.nodes.get? x :=
  Table.get?_erase g.nodes id x

theorem tally_removeNode (g : Graph) (id : Id) (label : String) (a b : Id) :
    (g.removeNode id).tally label a b = if a = id ∨ b = id then 0 else g.tally label a b := by
  unfold removeNode tally
  rw [List.countP_filter]
  split
  · rename_i h
    rw [List.countP_eq_zero]
    intro e _
    simp only [Bool.and_eq_true, decide_eq_true_eq, ne_eq]
    rintro ⟨⟨-, rfl, rfl⟩, hs, ht⟩
    rcases h with h | h
    · exact hs h
    · exact ht h
  · rename_i h
    apply List.countP_congr
    intro e _
    simp only [Bool.and_eq_true, decide_eq_true_eq, ne_eq]
    constructor
    · exact fun h => h.1
    · rintro ⟨hl, rfl, rfl⟩
      exact ⟨⟨hl, rfl, rfl⟩, fun hs => h (Or.inl hs), fun ht => h (Or.inr ht)⟩

theorem get?_removeNodes (g : Graph) (ids : List Id) (x : Id) :
    (ids.foldl removeNode g).nodes.get? x = if x ∈ ids then none else g.nodes.get? x := by
  induction ids generalizing g with
  | nil => simp
  | cons id rest ih =>
      rw [List.foldl_cons, ih, get?_removeNode]
      by_cases hid : id = x
      · simp [hid]
      · have hne : x ≠ id := fun h => hid h.symm
        simp [hid, hne]

theorem tally_removeNodes (g : Graph) (ids : List Id) (label : String) (a b : Id) :
    (ids.foldl removeNode g).tally label a b =
      if a ∈ ids ∨ b ∈ ids then 0 else g.tally label a b := by
  induction ids generalizing g with
  | nil => simp
  | cons id rest ih =>
      rw [List.foldl_cons, ih, tally_removeNode]
      by_cases ha : a = id <;> by_cases hb : b = id <;> simp [ha, hb]

theorem supply_removeNodes (g : Graph) (ids : List Id) :
    (ids.foldl removeNode g).supply = g.supply :=
  foldl_keeps supply removeNode (fun _ _ => rfl) ids g

theorem tally_dropEdges (g : Graph) (l : String) (test : StoredEdge → Bool) (p : Id → Id → Bool)
    (htest : ∀ e, test e = p e.source e.target) (label : String) (a b : Id) :
    (g.dropEdges l test).tally label a b =
      if label = l ∧ p a b = true then 0 else g.tally label a b := by
  unfold dropEdges tally
  rw [List.countP_filter]
  split
  · rename_i h
    rw [List.countP_eq_zero]
    intro e _
    simp only [Bool.and_eq_true, decide_eq_true_eq, Bool.not_eq_true', decide_eq_false_iff_not,
      htest]
    rintro ⟨⟨rfl, rfl, rfl⟩, hnot⟩
    exact hnot h
  · rename_i h
    apply List.countP_congr
    intro e _
    simp only [Bool.and_eq_true, decide_eq_true_eq, Bool.not_eq_true', decide_eq_false_iff_not,
      htest]
    constructor
    · exact fun h => h.1
    · rintro ⟨rfl, rfl, rfl⟩
      exact ⟨⟨rfl, rfl, rfl⟩, h⟩

/-! ### Cloning -/

/-- What cloning a source can come to. -/
theorem cloneNode_cases (g : Graph) (source : Id) (target : String) (codeList : Id)
    (hasData : Bool) :
    (g.node? source = none ∧ g.cloneNode source target codeList hasData = g) ∨
      ∃ n, g.node? source = some n ∧
        ((∃ clone rest, g.idsWithCode target n.cloneCode = clone :: rest ∧
            g.cloneNode source target codeList hasData =
              (g.mergeEdge EdgeLabel.cloneOf clone source).2) ∨
          ∃ v, v = Vertex.mk target (cloneProperties n n.cloneCode codeList hasData) ∧
            g.idsWithCode target n.cloneCode = [] ∧
            g.cloneNode source target codeList hasData =
              ((g.addVertex v).2.mergeEdge EdgeLabel.cloneOf (g.addVertex v).1 source).2) := by
  unfold cloneNode
  cases hn : g.node? source with
  | none => exact Or.inl ⟨rfl, rfl⟩
  | some n =>
      have hcode : (n.text? Property.code).getD "" = n.cloneCode := rfl
      refine Or.inr ⟨n, rfl, ?_⟩
      cases hids : g.idsWithCode target n.cloneCode with
      | cons clone rest => exact Or.inl ⟨clone, rest, rfl, by simp only [hcode, hids]⟩
      | nil => exact Or.inr ⟨_, rfl, rfl, by simp only [hcode, hids]⟩

/-! ### Links to codes -/

/-- The node for a code of a code list. -/
def codeNode? (g : Graph) (codeList : Id) (code : String) : Option Node :=
  (g.nodesWithLabel (NodeLabel.code codeList)).find? fun n => n.text? Property.value = some code

theorem codeNode?_of_nodes {g g' : Graph} (h : g'.nodes = g.nodes) :
    g'.codeNode? = g.codeNode? := by
  have hlabelled : ∀ label, g'.nodesWithLabel label = g.nodesWithLabel label :=
    fun label => nodesWithLabel_congr fun id v _ => by rw [h]
  funext codeList code
  unfold codeNode?
  rw [hlabelled]

/-- The node for a code is stored as a code of the code list. -/
theorem get?_of_codeNode? {g : Graph} {codeList : Id} {code : String} {n : Node}
    (h : g.codeNode? codeList code = some n) :
    n.label = NodeLabel.code codeList ∧ g.nodes.get? n.id = some n.vertex :=
  mem_nodesWithLabel.1 (List.mem_of_find?_eq_some h)

/-- What linking a node to a code can come to. -/
theorem linkCode_cases (g : Graph) (codeList node : Id) (code : String) :
    ((∀ n, g.codeNode? codeList code = some n → g.nodes.contains node = false) ∧
        g.linkCode codeList node code = g) ∨
      ∃ n, g.codeNode? codeList code = some n ∧ g.nodes.contains node = true ∧
        g.linkCode codeList node code = (g.mergeEdge EdgeLabel.hasCode node n.id).2 := by
  unfold linkCode codeNode?
  cases (g.nodesWithLabel (NodeLabel.code codeList)).find? fun n =>
      n.text? Property.value = some code with
  | none => simp
  | some n =>
      cases hnode : g.nodes.contains node with
      | false => simp
      | true => simp

end Graph
end InstanceHierarchy
