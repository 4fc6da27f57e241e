import InstanceHierarchy.Proofs.SourceLookup

/-!
# What the resolver finds

Asked for the generic nodes with some codes, or for their ancestors, the resolver finds exactly
those, on every graph: codes may be asked for twice or be carried by several nodes, edges may dangle
and run in circles, and parents may be nodes of any label.  How the codes are cut into batches and
the order in which the batches end make no difference.  Every code is sent once, in one of as few
statements as the batch size allows.
-/

namespace InstanceHierarchy

open Relation Environment

namespace Plan

variable {P : Plan}

/-- The code that is reported of a stored node. -/
theorem code_eq_iff {s : Id} {c : String} :
    (P.start.nodes.contains s ∧ c = P.code s) ↔
      ∃ n, P.start.node? s = some n ∧ n.cloneCode = c := by
  unfold code Table.contains Graph.node?
  cases P.start.nodes.get? s with
  | none => simp
  | some v => simp [eq_comm]

/-- The table that is read from the rows about some ids holds those that name nodes. -/
theorem holds_records (ids : List Id) :
    P.Holds (fun s => s ∈ ids ∧ P.start.nodes.contains s)
      (Table.ofList ((P.start.records ids).map fun n => (n.id, n.cloneCode))) := by
  have hmem : ∀ n, n ∈ P.start.records ids ↔ n.id ∈ ids ∧ P.start.node? n.id = some n := by
    intro n
    unfold Graph.records
    rw [List.mem_filterMap]
    constructor
    · rintro ⟨s, hs, hn⟩
      obtain rfl := (Graph.node?_eq_some.1 hn).1
      exact ⟨hs, hn⟩
    · rintro ⟨hs, hn⟩
      exact ⟨n.id, hs, hn⟩
  intro s c
  rw [and_assoc, code_eq_iff]
  unfold Table.ofList
  rw [Table.get?_insertAll (f := P.code) ?_ fun _ _ h => absurd h (by simp)]
  · simp only [Table.get?_empty, reduceCtorEq, or_false, List.mem_map, Prod.mk.injEq, hmem]
    constructor
    · rintro ⟨n, ⟨hid, hn⟩, rfl, hc⟩
      exact ⟨hid, n, hn, hc⟩
    · rintro ⟨hid, n, hn, hc⟩
      obtain rfl := (Graph.node?_eq_some.1 hn).1
      exact ⟨n, ⟨hid, hn⟩, rfl, hc⟩
  · intro e he
    obtain ⟨n, hn, rfl⟩ := List.mem_map.1 he
    unfold code
    rw [((hmem n).1 hn).2]

end Plan

namespace Resolver

/-- A record of calls shows the queries for some codes and nothing else: each code was sent once, in
as few queries as the batch size allows. -/
def Sent (r : Resolver) (query : List String → Query) (codes : List String)
    (log : List Received) : Prop :=
  ∃ batches : List (List String),
    log = batches.map (fun batch => ⟨.tabular, .of r.dialect (.query (query batch))⟩) ∧
      batches.flatten.Perm codes.dedup ∧
      batches.length =
        (codes.dedup.length + r.scheduler.batchSize - 1) / r.scheduler.batchSize

/-- A table holds the stored nodes that are wanted for one of some codes, with their own codes. -/
def Finds (g : Graph) (wanted : String → Id → Prop) (codes : List String) (t : CodesById) : Prop :=
  ∀ id c, t.get? id = some c ↔
    (∃ code ∈ codes, wanted code id) ∧ ∃ n, g.node? id = some n ∧ n.cloneCode = c

variable (r : Resolver) {P : Plan} {g : Graph} (codeList : Id) (codes : List String)

/-- Sending the statements for the batches in any order sends each code once. -/
theorem sent_of_perm {query : List String → Query} {statements : List Statement}
    (h : statements.Perm ((r.scheduler.split (TextSet.ofList codes).toList).map fun batch =>
      .of r.dialect (.query (query batch)))) :
    r.Sent query codes (statements.map (⟨.tabular, ·⟩)) := by
  obtain ⟨batches, rfl, hperm⟩ := exists_map_of_perm h
  have hdedup := TextSet.perm_dedup codes
  refine ⟨batches, by rw [List.map_map]; rfl, ?_, ?_⟩
  · rw [← flatten_chunks r.scheduler.batchSize (TextSet.ofList codes).toList] at hdedup
    exact hperm.flatten.trans hdedup
  · rw [hperm.length_eq, ← hdedup.length_eq]
    exact length_chunks r.scheduler.batchSize_pos _

/-- Queries that answer for each of their codes alike find, in whatever batches, what they find for
all codes at once. -/
theorem yields_resolve {query : List String → Query} (hinj : Function.Injective query)
    {wanted : String → Id → Prop}
    (hquery : ∀ batch, ∃ ids, P.start.answer (query batch) = .rows (P.start.idCodeRows ids) ∧
      ∀ s, s ∈ ids ↔ ∃ code ∈ batch, wanted code s) :
    ScriptedStore.environment.Yields (r.resolve query codes).run (.ofGraph P.start) fun result st =>
      (∃ t, result = .ok t ∧ Finds P.start wanted codes t) ∧ r.Sent query codes st.log ∧
        st.graph = P.start := by
  have hstatement : Function.Injective fun batch : List String =>
      Statement.of r.dialect (.query (query batch)) := by
    intro batch batch' h
    exact hinj (Operation.query.inj (congrArg Statement.operation h))
  -- the parts so far are those of the batches that the record shows
  have hachieves : Achieves ScriptedStore.environment (.alone fun _ => True)
      (fun st => st = .ofGraph P.start) (r.resolve query codes)
      fun t st => Finds P.start wanted codes t ∧ r.Sent query codes st.log ∧ st.graph = P.start := by
    refine Achieves.callAll (fun parts st => st.Plain ∧ st.graph = P.start ∧
        st.log = (parts.map (·.1)).map (⟨.tabular, ·⟩) ∧
        ∀ p ∈ parts, ∃ batch, p.1 = .of r.dialect (.query (query batch)) ∧
          P.Holds (fun s => (∃ code ∈ batch, wanted code s) ∧ P.start.nodes.contains s) p.2)
      ?_ (fun _ => Sharing.stable_alone _ _) (fun _ => Sharing.stable_alone _ _)
      (fun _ _ h => h.1.intime) ?_ ?_
    · rintro _ rfl
      exact ⟨ScriptedStore.plain_ofGraph P.start, rfl, rfl, by simp⟩
    · rintro parts st _ ⟨hplain, hgraph, hlog, hparts⟩ hmem
      obtain ⟨batch, -, rfl⟩ := List.mem_map.1 hmem
      obtain ⟨ids, hanswer, hids⟩ := hquery batch
      have hfit : Method.tabular.fit? (P.start.answer (query batch)) =
          some (P.start.idCodeRows ids) := by
        rw [hanswer]
        rfl
      have hcall : ScriptedStore.environment.call .tabular
          (.of r.dialect (.query (query batch))) st = (.ok (P.start.idCodeRows ids),
            st.after ⟨.tabular, .of r.dialect (.query (query batch))⟩ P.start) := by
        have hcalled := hplain.call_eq .tabular (.of r.dialect (.query (query batch)))
        rwa [Statement.of, hgraph, Graph.call_query hfit] at hcalled
      rw [hcall]
      refine ⟨fun _ => trivial, _, _, rfl, readRows_idCodeRows P.start ids, hplain, rfl, ?_,
        fun p hp => ?_⟩
      · rw [List.map_append, List.map_append, ← hlog]
        rfl
      · rcases List.mem_append.1 hp with hp | hp
        · exact hparts p hp
        · obtain rfl := List.mem_singleton.1 hp
          exact ⟨batch, rfl, (Plan.holds_records ids).congr fun s =>
            and_congr_left fun _ => hids s⟩
    · rintro parts st ⟨-, hgraph, hlog, hparts⟩ hperm parts' hperm'
      refine ⟨?_, ?_, hgraph⟩
      · intro id c
        rw [Plan.Holds.of_parts hstatement hparts hperm hperm' id c, ← exists_split (s := r.scheduler),
          ← Plan.code_eq_iff]
        simp only [← and_assoc, exists_and_right]
      · rw [hlog]
        exact r.sent_of_perm codes hperm
  exact (hachieves _ rfl).yields.imp fun result st ⟨t, hresult, hfinds, hsent⟩ =>
    ⟨⟨t, hresult, hfinds⟩, hsent⟩

/-- The generic nodes with some codes. -/
theorem answer_nodeIds (batch : List String) :
    ∃ ids, g.answer (.genericIds codeList batch) = .rows (g.idCodeRows ids) ∧
      ∀ s, s ∈ ids ↔ ∃ code ∈ batch, g.Coded (NodeLabel.generic codeList) code s :=
  ⟨_, rfl, fun _ => Graph.mem_idsWithCodeIn⟩

/-- The ancestors of several nodes are those of each of them. -/
theorem answer_ancestorIds (batch : List String) :
    ∃ ids, g.answer (.ancestryIds codeList batch) = .rows (g.idCodeRows ids) ∧
      ∀ s, s ∈ ids ↔ ∃ code ∈ batch, ∃ d, g.Coded (NodeLabel.generic codeList) code d ∧
        TransGen g.Up d s := by
  refine ⟨_, rfl, fun s => ?_⟩
  rw [Graph.mem_ancestors]
  simp only [Graph.mem_idsWithCodeIn]
  constructor
  · rintro ⟨d, ⟨code, hcode, hd⟩, hchain⟩
    exact ⟨code, hcode, d, hd, hchain⟩
  · rintro ⟨code, hcode, d, hd, hchain⟩
    exact ⟨d, ⟨code, hcode, hd⟩, hchain⟩

/-- A node that carries a code under a label is reported with that code. -/
theorem coded_iff_reported {label : String} {id : Id} {c : String} :
    ((∃ code ∈ codes, g.Coded label code id) ∧ ∃ n, g.node? id = some n ∧ n.cloneCode = c) ↔
      c ∈ codes ∧ g.Coded label c id := by
  have hcode : ∀ {n d}, g.node? id = some n → g.Coded label d id → n.cloneCode = d := by
    rintro n d hn ⟨ps, hps, hd⟩
    have hget := (Graph.node?_eq_some.1 hn).2
    rw [hps] at hget
    obtain rfl : ps = n.properties := congrArg Vertex.properties (Option.some.inj hget)
    have htext : n.text? Property.code = some d := hd
    unfold Node.cloneCode
    rw [htext]
    rfl
  constructor
  · rintro ⟨⟨code, hmem, hcoded⟩, n, hn, rfl⟩
    obtain rfl := hcode hn hcoded
    exact ⟨hmem, hcoded⟩
  · rintro ⟨hmem, hcoded⟩
    have ⟨ps, hps, _⟩ := hcoded
    have hn : g.node? id = some ⟨id, label, ps⟩ := Graph.node?_eq_some.2 ⟨rfl, hps⟩
    exact ⟨⟨c, hmem, hcoded⟩, _, hn, hcode hn hcoded⟩

/-- Both kinds of search find exactly what they are to find, each code sent once, in every order in
which the batches may end. -/
theorem yields_exactly (g : Graph) :
    (ScriptedStore.environment.Yields (r.nodeIds codeList codes).run (.ofGraph g) fun result st =>
      (∃ t, result = .ok t ∧ ∀ id c, t.get? id = some c ↔
        c ∈ codes ∧ g.Coded (NodeLabel.generic codeList) c id) ∧
      r.Sent (.genericIds codeList) codes st.log ∧ st.graph = g) ∧
    ScriptedStore.environment.Yields (r.ancestorIds codeList codes).run (.ofGraph g)
      fun result st =>
        (∃ t, result = .ok t ∧ ∀ id c, t.get? id = some c ↔
          (∃ code ∈ codes, ∃ d, g.Coded (NodeLabel.generic codeList) code d ∧ TransGen g.Up d id) ∧
            ∃ n, g.node? id = some n ∧ n.cloneCode = c) ∧
        r.Sent (.ancestryIds codeList) codes st.log ∧ st.graph = g := by
  constructor
  · refine (r.yields_resolve (P := ⟨g, codeList⟩) codes genericIds_injective
      (answer_nodeIds codeList)).imp ?_
    rintro result st ⟨⟨t, hresult, hfinds⟩, hsent⟩
    exact ⟨⟨t, hresult, fun id c => (hfinds id c).trans (coded_iff_reported codes)⟩, hsent⟩
  · exact r.yields_resolve (P := ⟨g, codeList⟩) codes ancestryIds_injective
      (answer_ancestorIds codeList)

end Resolver
end InstanceHierarchy
