import InstanceHierarchy.Proofs.Coverage
import InstanceHierarchy.Proofs.Growth
import InstanceHierarchy.Proofs.Repetition

/-!
# Batches in any order

A step on a set of ids does the same whether it is sent as one mutation with all the ids or as
several with some of them each, and in whatever order these are carried out.  A mutation for several
ids does what mutations for one id each do, one after another.  So it is enough to look at the order
of the ids.  What is done for one id is told by the graph as it was before the step: the work on
other ids does not change the code that a source is cloned under, the parent edges of a source, or
the place and the children of a node.

There are conditions on the ids, and a statement has them next to the step they are for.  Sources
with one code would share a clone, which takes its label from the first of them.  A node that is the
clone of several sources would take its place from the last of them.
-/

namespace InstanceHierarchy

namespace Graph

variable {start g : Graph}

/-! ## Cloning -/

section Clones

variable (start) (target : String) (codeList : Id) (hasData : Bool)

/-- What is stored as the clone of a source, if there is none yet. -/
def cloneVertex (source : Id) : Vertex :=
  ⟨target, match start.node? source with
    | some n => cloneProperties n n.cloneCode codeList hasData
    | none => .empty⟩

/-- The clone of a stored source: the first node that has its code, or a new one. -/
def cloneEnd (source : Id) : Option End :=
  (start.node? source).map fun n =>
    match start.idsWithCode target n.cloneCode with
    | clone :: _ => .old clone
    | [] => .made source

variable {start}

/-- The nodes that the ids name are cloned under different codes. -/
def DistinctlyCoded (g : Graph) (ids : List Id) : Prop :=
  ((g.records ids).map Node.cloneCode).Nodup

instance (g : Graph) (ids : List Id) : Decidable (g.DistinctlyCoded ids) :=
  inferInstanceAs (Decidable (List.Nodup _))

theorem DistinctlyCoded.eq {ids : List Id} (h : g.DistinctlyCoded ids) {a b : Id} (ha : a ∈ ids)
    (hb : b ∈ ids) {m n : Node} (hm : g.node? a = some m) (hn : g.node? b = some n)
    (hcode : m.cloneCode = n.cloneCode) : a = b := by
  have hmem : m ∈ g.records ids := List.mem_filterMap.2 ⟨a, ha, hm⟩
  have hnmem : n ∈ g.records ids := List.mem_filterMap.2 ⟨b, hb, hn⟩
  obtain rfl := List.inj_on_of_nodup_map h hmem hnmem hcode
  exact (node?_eq_some.1 hm).1.symm.trans (node?_eq_some.1 hn).1

variable {target} {source : Id} {n : Node}

theorem cloneVertex_eq (hn : start.node? source = some n) :
    start.cloneVertex target codeList hasData source =
      ⟨target, cloneProperties n n.cloneCode codeList hasData⟩ := by
  rw [cloneVertex, hn]

theorem codeIn_cloneVertex (hn : start.node? source = some n) :
    codeIn (start.cloneVertex target codeList hasData source).properties = some n.cloneCode := by
  rw [cloneVertex_eq codeList hasData hn]
  exact codeIn_cloneProperties n _ codeList hasData

theorem cloneEnd_of_coded (hn : start.node? source = some n) {clone : Id} {rest : List Id}
    (h : start.idsWithCode target n.cloneCode = clone :: rest) :
    start.cloneEnd target source = some (.old clone) := by
  rw [cloneEnd, hn, Option.map_some, h]

theorem cloneEnd_of_uncoded (hn : start.node? source = some n)
    (h : start.idsWithCode target n.cloneCode = []) :
    start.cloneEnd target source = some (.made source) := by
  rw [cloneEnd, hn, Option.map_some, h]

variable (target)

/-- Cloning a source makes and asks for what the start tells of it. -/
theorem stepsBy_cloneNode (hstart : start.Fresh) {ids : List Id}
    (hids : ∀ id ∈ ids, ¬ start.Future id) (hcodes : start.DistinctlyCoded ids) :
    Grown.StepsBy start (start.cloneVertex target codeList hasData) ids
      (fun g source => g.cloneNode source target codeList hasData)
      (fun source s => s = source ∧ start.cloneEnd target source = some (.made source))
      (fun source q => ∃ a, start.cloneEnd target source = some a ∧
        q = ⟨EdgeLabel.cloneOf, a, .old source⟩) := by
  intro done source g hdone hsource hnew hg
  beta_reduce at hg ⊢
  -- the source is a node of the start or none
  have hnode : g.node? source = start.node? source := by
    refine congrArg (Option.map _) (Option.ext fun v => hg.get?_eq_some.trans (or_iff_left ?_))
    rintro ⟨-, -, hfuture, -⟩
    exact hids source hsource hfuture
  rcases g.cloneNode_cases source target codeList hasData with ⟨hn, heq⟩ | ⟨n, hn, hcases⟩
  · rw [hnode] at hn
    have hnone : start.cloneEnd target source = none := by
      rw [cloneEnd, hn]
      rfl
    rw [heq]
    exact hg.congr (by simp [hnone]) (by simp [hnone])
  · rw [hnode] at hn
    have hstored : start.nodes.contains source :=
      Table.contains_iff.2 ⟨_, (node?_eq_some.1 hn).2⟩
    -- the nodes that were made since have other codes
    have hsame : g.idsWithCode target n.cloneCode = start.idsWithCode target n.cloneCode := by
      refine idsWithCode_congr fun id v _ hcode => hg.get?_eq_some.trans (or_iff_left ?_)
      rintro ⟨s, ⟨j, hj, rfl, hmade⟩, -, rfl, -⟩
      obtain ⟨m, hm, -⟩ := Option.map_eq_some_iff.1 hmade
      rw [codeIn_cloneVertex codeList hasData hm] at hcode
      exact hnew (hcodes.eq (hdone s hj) hsource hm hn (Option.some.inj hcode) ▸ hj)
    rcases hcases with ⟨clone, rest, hcoded, heq⟩ | ⟨v, rfl, hcoded, heq⟩
    · rw [hsame] at hcoded
      have hend := cloneEnd_of_coded hn hcoded
      have hclone : start.Coded target n.cloneCode clone :=
        mem_idsWithCode.1 (hcoded ▸ List.mem_cons_self)
      rw [heq]
      exact (hg.merge hstart EdgeLabel.cloneOf (contains_of_label hclone.label) hstored).congr
        (by simp [hend]) (by simp [hend])
    · rw [hsame] at hcoded
      have hend := cloneEnd_of_uncoded hn hcoded
      have hunmade : ¬ ∃ j ∈ done,
          source = j ∧ start.cloneEnd target j = some (.made j) := by
        rintro ⟨j, hj, rfl, -⟩
        exact hnew hj
      have hadd := hg.add hstart EdgeLabel.cloneOf hunmade hstored
      rw [cloneVertex_eq codeList hasData hn] at hadd
      rw [heq]
      exact hadd.congr (by simp [hend]) (by simp [hend])

end Clones

/-! ## Repeating parent edges -/

section Parents

variable {target : String}

/-- Repeat the parent edges of one source between its clones. -/
def relateNode (target : String) (g : Graph) (source : Id) : Graph :=
  (g.relatePairs target source).foldl
    (fun g pair => (g.mergeEdge EdgeLabel.hasParent pair.1 pair.2).2) g

theorem linkParents_eq (state : List Edge × Graph) (pairs : List (Id × Id)) :
    (linkParents state pairs).2 = pairs.foldl
      (fun g pair => (g.mergeEdge EdgeLabel.hasParent pair.1 pair.2).2) state.2 := by
  induction pairs generalizing state with
  | nil => rfl
  | cons pair rest ih =>
      obtain ⟨created, hcons⟩ := linkParents_cons state pair rest
      rw [hcons, ih]
      rfl

theorem relateFrom_eq (sources : List Id) (state : List Edge × Graph) :
    (relateFrom target sources state).2 = sources.foldl (relateNode target) state.2 := by
  induction sources generalizing state with
  | nil => rfl
  | cons first rest ih =>
      rw [relateFrom_cons, ih, linkParents_eq]
      rfl

/-- More parent edges that leave nodes of the hierarchy change nothing in what a source outside of
it asks for. -/
theorem MoreParents.mem_relatePairs {source : Id} (h : MoreParents target start g)
    (hsource : start.label? source ≠ some target) {pair : Id × Id} :
    pair ∈ g.relatePairs target source ↔ pair ∈ start.relatePairs target source := by
  refine ⟨fun hpair => h.relatePairs hsource hpair, fun hpair => ?_⟩
  obtain ⟨t, hup, hb, ha⟩ := Graph.mem_relatePairs.1 hpair
  exact Graph.mem_relatePairs.2 ⟨t, h.up source t hup, h.mem_clonesOf.2 hb, h.mem_clonesOf.2 ha⟩

/-- Repeating the parent edges of a source asks for what the start tells of it. -/
theorem stepsBy_relateNode (hstart : start.Fresh) (vertex : Id → Vertex) {ids : List Id}
    (hids : ∀ id ∈ ids, start.label? id ≠ some target) :
    Grown.StepsBy start vertex ids (relateNode target) (fun _ _ => False)
      (fun source q => ∃ pair ∈ start.relatePairs target source,
        q = ⟨EdgeLabel.hasParent, .old pair.1, .old pair.2⟩) := by
  intro done source g hdone hsource hnew hg
  beta_reduce at hg ⊢
  have hnone : ∀ _ : Id, ¬ ∃ j ∈ done, False := by simp
  -- the edges that were added since are parent edges between clones
  have hmore : MoreParents target start g := by
    refine ⟨hg.nodes_eq hnone, fun a s => ?_, fun a b hup => ?_, fun a b hup => ?_⟩
    · rw [hg.joined_iff_asked hnone, or_iff_left]
      rintro ⟨j, -, pair, -, heq⟩
      exact absurd (congrArg Ask.label heq) (by simp [EdgeLabel.cloneOf, EdgeLabel.hasParent])
    · exact (hg.joined_iff_asked hnone).2 (Or.inl hup)
    · refine ((hg.joined_iff_asked hnone).1 hup).imp_right ?_
      rintro ⟨j, -, ⟨x, y⟩, hpair, heq⟩
      cases heq
      obtain ⟨t, -, -, ha⟩ := Graph.mem_relatePairs.1 hpair
      exact (mem_clonesOf.1 ha).2
  have hpairs : ∀ pair ∈ g.relatePairs target source,
      start.nodes.contains pair.1 ∧ start.nodes.contains pair.2 := by
    intro pair hpair
    have hold := (hmore.mem_relatePairs (hids source hsource)).1 hpair
    obtain ⟨t, -, hb, ha⟩ := Graph.mem_relatePairs.1 hold
    exact ⟨contains_of_label (mem_clonesOf.1 ha).2, contains_of_label (mem_clonesOf.1 hb).2⟩
  refine (hg.mergeAll hstart EdgeLabel.hasParent hpairs).congr (fun s => by simp) fun q => ?_
  exact or_congr_right (exists_congr fun pair => and_congr_left fun _ =>
    hmore.mem_relatePairs (hids source hsource))

end Parents

/-! ## Links to codes -/

/-- Linking a node to a code asks for what the start tells of it. -/
theorem stepsBy_linkCode (hstart : start.Fresh) (vertex : Id → Vertex) (codeList : Id)
    (entries : List (Id × String)) :
    Grown.StepsBy start vertex entries (fun g e => g.linkCode codeList e.1 e.2) (fun _ _ => False)
      (fun e q => ∃ n, start.codeNode? codeList e.2 = some n ∧ start.nodes.contains e.1 = true ∧
        q = ⟨EdgeLabel.hasCode, .old e.1, .old n.id⟩) := by
  intro done e g hdone he hnew hg
  beta_reduce at hg ⊢
  have hnodes : g.nodes = start.nodes := hg.nodes_eq fun _ ⟨_, _, h⟩ => h
  have hcases := g.linkCode_cases codeList e.1 e.2
  rw [codeNode?_of_nodes hnodes, hnodes] at hcases
  rcases hcases with ⟨hnone, heq⟩ | ⟨n, hn, hnode, heq⟩
  · rw [heq]
    refine hg.congr (by simp) fun q => (or_iff_left ?_).symm
    rintro ⟨n, hn, hnode, -⟩
    rw [hnone n hn] at hnode
    cases hnode
  · have hcode : start.nodes.contains n.id :=
      Table.contains_iff.2 ⟨_, (get?_of_codeNode? hn).2⟩
    rw [heq]
    exact (hg.merge hstart EdgeLabel.hasCode hnode hcode).congr (by simp) (by simp [hn, hnode])

/-! ## Places, numbers of children and removed links -/

section Exact

variable {ids order : List Id}

/-- Every node has one link to a source at most. -/
def OneSource (g : Graph) : Prop :=
  ∀ n ∈ g.nodeList, (g.targets n.id EdgeLabel.cloneOf).length ≤ 1

instance (g : Graph) : Decidable g.OneSource :=
  inferInstanceAs (Decidable (∀ n ∈ g.nodeList, _))

theorem OneSource.eq (h : g.OneSource) {x s t : Id} {v : Vertex} (hx : g.nodes.get? x = some v)
    (hs : g.Joined EdgeLabel.cloneOf x s) (ht : g.Joined EdgeLabel.cloneOf x t) : s = t := by
  have hone : (g.targets x EdgeLabel.cloneOf).length ≤ 1 := h (v.node x) (mem_nodeList.2 hx)
  rw [← mem_targets] at hs ht
  obtain ⟨u, hu⟩ := List.length_eq_one_iff.1
    (Nat.le_antisymm hone (List.length_pos_of_mem hs))
  rw [hu, List.mem_singleton] at hs ht
  exact hs.trans ht.symm

/-- A node that has one source takes its place from it, whenever its turn comes. -/
theorem lastPlace_perm (hg : g.OneSource) (codeList : Id) {x : Id} {v : Vertex}
    (hx : g.nodes.get? x = some v) (h : order.Perm ids) :
    g.lastPlace codeList x order = g.lastPlace codeList x ids := by
  induction h with
  | nil => rfl
  | cons s _ ih => rw [lastPlace, lastPlace, ih]
  | swap s t rest =>
      have hplaces : (g.placeFrom codeList x t).or (g.placeFrom codeList x s) =
          (g.placeFrom codeList x s).or (g.placeFrom codeList x t) := by
        unfold placeFrom
        by_cases hs : x ∈ g.sources s EdgeLabel.cloneOf
        · by_cases ht : x ∈ g.sources t EdgeLabel.cloneOf
          · rw [hg.eq hx (mem_sources.1 hs) (mem_sources.1 ht)]
          · simp [ht]
        · simp [hs]
      simp only [lastPlace, Option.or_assoc, hplaces]
  | trans _ _ ih ih' => exact ih.trans ih'

theorem copyOrder_perm (hg : g.OneSource) (codeList : Id) (h : order.Perm ids) :
    order.foldl (fun g id => g.copyOrder codeList id) g =
      ids.foldl (fun g id => g.copyOrder codeList id) g := by
  refine eq_of_same (fun x => ?_) ?_ ?_
  · rw [get?_copyOrders, get?_copyOrders]
    cases hx : g.nodes.get? x with
    | none => rfl
    | some v => rw [lastPlace_perm hg codeList hx h]
  · exact (edges_mutate_copyOrder g codeList order).trans
      (edges_mutate_copyOrder g codeList ids).symm
  · rw [supply_copyOrders, supply_copyOrders]

theorem countChildren_perm (g : Graph) (h : order.Perm ids) :
    g.countChildren order = g.countChildren ids := by
  refine eq_of_same (fun x => ?_) ?_ ?_
  · rw [get?_countChildren, get?_countChildren, if_congr h.mem_iff rfl rfl]
  · rw [edges_countChildren, edges_countChildren]
  · rw [supply_countChildren, supply_countChildren]

theorem unlinkSources_perm (g : Graph) (h : order.Perm ids) :
    (g.dropEdges EdgeLabel.cloneOf fun e => e.target ∈ order) =
      g.dropEdges EdgeLabel.cloneOf fun e => e.target ∈ ids := by
  simp only [h.mem_iff]

theorem unlinkSources_cons (g : Graph) (id : Id) (rest : List Id) :
    (g.dropEdges EdgeLabel.cloneOf fun e => e.target ∈ id :: rest) =
      (g.dropEdges EdgeLabel.cloneOf fun e => e.target ∈ [id]).dropEdges EdgeLabel.cloneOf
        fun e => e.target ∈ rest := by
  unfold dropEdges
  congr 1
  rw [List.filter_filter]
  refine List.filter_congr fun e _ => ?_
  by_cases hl : e.label = EdgeLabel.cloneOf <;> by_cases hid : e.target = id <;> simp [hl, hid]

end Exact

/-- Links to codes may be made in any order. -/
theorem sameButIds_linkCodes (hg : g.Fresh) (codeList : Id) (codes : CodesById)
    {order : List Mutation}
    (h : order.Perm (codes.entries.map fun e => .linkCode codeList e.1 e.2)) :
    g.SameButIds (g.mutateAll order)
      (g.mutateAll (codes.entries.map fun e => .linkCode codeList e.1 e.2)) := by
  obtain ⟨entries, rfl, hperm⟩ := exists_map_of_perm h
  rw [mutateAll, mutateAll, List.foldl_map, List.foldl_map]
  exact (stepsBy_linkCode hg (fun _ => ⟨"", .empty⟩) codeList codes.entries).same hg
    codes.nodup_keys.of_map hperm

end Graph

/-! ## Steps -/

namespace IdStep

open InstanceHierarchy.Graph

/-- The step for one id. -/
def one (step : IdStep) (g : Graph) (id : Id) : Graph := (g.mutate (step.mutation [id])).2

theorem one_relateSources (key : HierarchyKey) :
    (relateSources key).one = relateNode (NodeLabel.hierarchy key) := by
  funext g id
  exact relateFrom_eq [id] ([], g)

/-- The mutation for several ids does what the mutations for one id each do, one after another. -/
theorem mutate_eq (step : IdStep) (g : Graph) (ids : List Id) :
    (g.mutate (step.mutation ids)).2 = ids.foldl step.one g := by
  cases step with
  | cloneSources key codeList hasData => rfl
  | relateSources key =>
      rw [one_relateSources]
      exact relateFrom_eq ids ([], g)
  | copyOrder codeList => rfl
  | unlinkSources =>
      induction ids generalizing g with
      | nil => simp [mutation, mutate, dropEdges]
      | cons id rest ih =>
          rw [List.foldl_cons, ← ih]
          exact unlinkSources_cons g id rest
  | countChildrenOf => rfl

/-- So do mutations for batches. -/
theorem mutateAll_batches (step : IdStep) (g : Graph) (batches : List (List Id)) :
    g.mutateAll (batches.map step.mutation) = batches.flatten.foldl step.one g := by
  rw [mutateAll, List.foldl_map, List.foldl_flatten]
  exact List.foldl_ext _ _ _ fun g batch _ => step.mutate_eq g batch

/-- What the ids of a step have to be like for their order not to matter. -/
def Suits (g : Graph) (ids : List Id) : IdStep → Prop
  | cloneSources _ _ _ => (∀ id ∈ ids, ¬ g.Future id) ∧ g.DistinctlyCoded ids
  | relateSources key => ∀ id ∈ ids, g.label? id ≠ some (NodeLabel.hierarchy key)
  | copyOrder _ => g.OneSource
  | unlinkSources => True
  | countChildrenOf => True

/-- What a step comes to is the same: the graph but for drawn ids and the order of new edges, if the
step adds nodes or edges, and the very same graph if it does not. -/
def Agrees (start g g' : Graph) : IdStep → Prop
  | cloneSources _ _ _ => SameButIds start g g'
  | relateSources _ => SameButIds start g g'
  | copyOrder _ => g = g'
  | unlinkSources => g = g'
  | countChildrenOf => g = g'

/-- What is done for the ids may be done in any order. -/
theorem agrees_of_perm {step : IdStep} {g : Graph} (hfresh : g.Fresh) {ids order : List Id}
    (hids : ids.Nodup) (hsuits : step.Suits g ids) (h : order.Perm ids) :
    step.Agrees g (order.foldl step.one g) (ids.foldl step.one g) := by
  cases step with
  | cloneSources key codeList hasData =>
      exact (stepsBy_cloneNode _ codeList hasData hfresh hsuits.1 hsuits.2).same hfresh hids h
  | relateSources key =>
      have hsame := (stepsBy_relateNode hfresh (fun _ => ⟨"", .empty⟩) hsuits).same hfresh hids h
      exact one_relateSources key ▸ hsame
  | copyOrder codeList => exact copyOrder_perm hsuits codeList h
  | unlinkSources =>
      rw [← mutate_eq, ← mutate_eq]
      exact unlinkSources_perm g h
  | countChildrenOf => exact countChildren_perm g h

/-- Mutations for batches come to what one mutation for all the ids comes to. -/
theorem agrees_batches {step : IdStep} {g : Graph} (hfresh : g.Fresh) {ids : TextSet}
    (hsuits : step.Suits g ids.toList) {batches : List (List Id)}
    (h : batches.flatten.Perm ids.toList) :
    step.Agrees g (g.mutateAll (batches.map step.mutation))
      (g.mutate (step.mutation ids.toList)).2 := by
  rw [mutate_eq, mutateAll_batches]
  exact agrees_of_perm hfresh (Table.nodup_keys _) hsuits h

end IdStep

/-! ## Executions -/

namespace Environment

variable {method : Method}

/-- Mutations that are sent to a graph one after another are all carried out. -/
theorem callAll_mutations (hm : Graph.Sends method) (mutations : List Mutation) (g : Graph) :
    let r := graph.callAll method (mutations.map Mutation.statement) g
    (∀ c ∈ r.1, c.failure? = none) ∧ r.2 = g.mutateAll mutations := by
  induction mutations generalizing g with
  | nil => exact ⟨fun _ h => absurd h List.not_mem_nil, rfl⟩
  | cons m rest ih =>
      obtain ⟨reply, hreply⟩ := g.call_mutation hm m m.statement.text
      have hcall : graph.call method m.statement g = (.ok reply, (g.mutate m).2) := hreply
      have hintime : graph.expired g = false := rfl
      obtain ⟨hrest, hgraph⟩ := ih (g.mutate m).2
      simp only [List.map_cons, callAll, hintime, Bool.false_eq_true, if_false, hcall]
      refine ⟨List.forall_mem_cons.2 ⟨Completion.failure?_of_ok rfl, hrest⟩, ?_⟩
      rw [hgraph]
      rfl

/-- However mutations are sent to a graph on the workers of a scheduler, all of them are carried
out, in some order. -/
theorem yields_sendAll (hm : Graph.Sends method) (writing : BatchScheduler)
    (mutations : List Mutation) (g : Graph) :
    graph.Yields (StoreM.sendAll writing method (mutations.map Mutation.statement)).run g
      fun r g' => r = .ok () ∧ ∃ order, order.Perm mutations ∧ g' = g.mutateAll order := by
  rw [StoreM.run_sendAll]
  refine (yields_reached _ _ _).imp fun result g' hreached => ?_
  obtain ⟨ends, t, hpool, hpure⟩ := reached_of_bind hreached
  cases eq_of_pure_reached hpure
  obtain ⟨sent, hsent, hends, hgraph⟩ := pool_reached hpool
  obtain ⟨order, rfl, horder⟩ := exists_map_of_perm hsent
  obtain ⟨hdone, hall⟩ := callAll_mutations hm order g
  refine ⟨StoreM.sent_eq_ok.2 fun c hc => hdone c (hends.mem_iff.1 hc), order, horder, ?_⟩
  rw [hgraph, hall]

end Environment

open Environment InstanceHierarchy.Graph

/-- On a graph a step on a set of ids comes to what one mutation with all the ids comes to, whatever
batches the set is cut into and in whatever order these are carried out, and so does every execution
of the step.  The step that links codes comes to the same whatever the order of its entries. -/
theorem batches_in_any_order (reading writing : BatchScheduler) (g : Graph) (hfresh : g.Fresh) :
    (∀ (step : IdStep) (ids : TextSet), step.Suits g ids.toList →
      let whole := (g.mutate (step.mutation ids.toList)).2
      (∀ batches : List (List Id), batches.flatten.Perm ids.toList →
        step.Agrees g (g.mutateAll (batches.map step.mutation)) whole) ∧
      graph.Yields (step.run (.gremlin reading writing) ids).run g fun r g' =>
        r = .ok () ∧ step.Agrees g g' whole) ∧
    ∀ (codeList : Id) (codes : CodesById),
      let links := codes.entries.map fun e => Mutation.linkCode codeList e.1 e.2
      let whole := g.mutateAll links
      (∀ order : List Mutation, order.Perm links → g.SameButIds (g.mutateAll order) whole) ∧
      graph.Yields (Backend.linkCodes (.gremlin reading writing) codeList codes).run g fun r g' =>
        r = .ok () ∧ g.SameButIds g' whole := by
  refine ⟨fun step ids hsuits => ?_, fun codeList codes => ?_⟩
  · refine ⟨fun batches => IdStep.agrees_batches hfresh hsuits, ?_⟩
    rw [step.run_gremlin]
    have hsent := yields_sendAll step.sends_method writing
      ((writing.split ids.toList).map step.mutation) g
    rw [List.map_map] at hsent
    refine hsent.imp fun r g' ⟨hr, order, horder, hg'⟩ => ⟨hr, ?_⟩
    obtain ⟨batches, rfl, hperm⟩ := exists_map_of_perm horder
    have hall : batches.flatten.Perm ids.toList :=
      hperm.flatten.trans (.of_eq (flatten_chunks _ ids.toList))
    exact hg' ▸ IdStep.agrees_batches hfresh hsuits hall
  · refine ⟨fun order => Graph.sameButIds_linkCodes hfresh codeList codes, ?_⟩
    have hsent := yields_sendAll (Or.inl rfl) writing
      (codes.entries.map fun e => .linkCode codeList e.1 e.2) g
    rw [List.map_map] at hsent
    exact hsent.imp fun r g' ⟨hr, order, horder, hg'⟩ =>
      ⟨hr, hg' ▸ Graph.sameButIds_linkCodes hfresh codeList codes horder⟩

/-- Two sources and an id that names no node are cloned one by one, the parent edge is repeated
between their clones, and these take their places. -/
theorem twoCodes_in_any_order :
    let ids := TextSet.ofList ["a", "b", "z"]
    let clone := IdStep.cloneSources ⟨"i", "x"⟩ "list" true
    let relate := IdStep.relateSources ⟨"i", "x"⟩
    let place := IdStep.copyOrder "list"
    let cloned := (twoCodes.mutate (clone.mutation ids.toList)).2
    let batches := [["z", "b"], ["a"]]
    clone.Agrees twoCodes (twoCodes.mutateAll (batches.map clone.mutation)) cloned ∧
      relate.Agrees cloned (cloned.mutateAll (batches.map relate.mutation))
        (cloned.mutate (relate.mutation ids.toList)).2 ∧
      graph.Yields (place.run (.gremlin (.of 1 1) (.of 2 2)) ids).run cloned fun r g' =>
        r = .ok () ∧ place.Agrees cloned g' (cloned.mutate (place.mutation ids.toList)).2 := by
  intro ids clone relate place cloned batches
  have hshort : ∀ id ∈ ids.toList, id.length < 2 := by decide +kernel
  have hcodes : twoCodes.DistinctlyCoded ids.toList := by decide +kernel
  have hclone : clone.Suits twoCodes ids.toList :=
    ⟨fun id hid => Graph.not_future_of_short rfl (hshort id hid), hcodes⟩
  have hrelate : ∀ id ∈ ids.toList,
      cloned.label? id ≠ some (NodeLabel.hierarchy ⟨"i", "x"⟩) := by decide +kernel
  have hplace : cloned.OneSource := by decide +kernel
  have hbatches : batches.flatten.Perm ids.toList := by decide +kernel
  have hfresh : cloned.Fresh :=
    (Graph.changes_mutate twoCodes _ (Graph.worksFor_any _)).kept (fun _ _ h => h.fresh)
      twoCodes_fresh
  have hfirst := batches_in_any_order (.of 1 1) (.of 2 2) twoCodes twoCodes_fresh
  have hthen := batches_in_any_order (.of 1 1) (.of 2 2) cloned hfresh
  exact ⟨(hfirst.1 clone ids hclone).1 batches hbatches,
    (hthen.1 relate ids hrelate).1 batches hbatches, (hthen.1 place ids hplace).2⟩

end InstanceHierarchy
