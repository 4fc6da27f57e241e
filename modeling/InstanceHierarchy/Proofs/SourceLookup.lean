import InstanceHierarchy.Build
import InstanceHierarchy.Proofs.IdBuildMilestones

/-!
# Resolving codes to sources

The sources with some codes and their ancestors are asked for in batches, and the rows that answer
are read back into tables.  Whatever the batches and the order in which they end, the merged table
holds the wanted sources with their codes.
-/

namespace InstanceHierarchy

open Relation Environment

/-! ## Rows -/

theorem IdCode.ofJson_toJson (r : IdCode) : IdCode.ofJson r.toJson = .ok r := rfl

theorem list_ofJson_toJson (rows : List IdCode) :
    Reading.list IdCode.ofJson (.arr (rows.map IdCode.toJson)) = .ok rows := by
  show (rows.map IdCode.toJson).mapM IdCode.ofJson = .ok rows
  induction rows with
  | nil => rfl
  | cons r rest ih =>
      rw [List.map_cons, List.mapM_cons, IdCode.ofJson_toJson, ih]
      rfl

theorem collect_singleton (batch : Json) :
    IdCode.collect [batch] = (Reading.list IdCode.ofJson batch).map fun rows =>
      Table.ofList (rows.map fun r => (r.id, r.code)) := by
  unfold IdCode.collect
  rw [List.foldlM_cons]
  cases Reading.list IdCode.ofJson batch with
  | error e => rfl
  | ok rows => rfl

/-- What is read back from the rows about some nodes. -/
theorem readRows_idCodeRows (g : Graph) (ids : List Id) :
    Resolver.readRows (g.idCodeRows ids) =
      .ok (Table.ofList ((g.records ids).map fun n => (n.id, n.cloneCode))) := by
  have hrows : g.idCodeRows ids =
      [.arr (((g.records ids).map fun n => IdCode.mk n.id n.cloneCode).map IdCode.toJson)] := by
    rw [List.map_map]
    rfl
  unfold Resolver.readRows
  rw [hrows, collect_singleton, list_ofJson_toJson]
  show Except.ok (Table.ofList (List.map _ (List.map _ _))) = _
  rw [List.map_map]
  rfl

/-- Tables that follow one function hold merged what each of them holds. -/
theorem get?_merged {α : Type} {f : String → α} {tables : List (Table α)}
    (h : ∀ t ∈ tables, ∀ k v, t.get? k = some v → v = f k) (k : String) (v : α) :
    (Achieves.merged tables).get? k = some v ↔ ∃ t ∈ tables, t.get? k = some v := by
  have key : ∀ s : Table α, (∀ k v, s.get? k = some v → v = f k) →
      ((tables.foldl Table.union s).get? k = some v ↔
        s.get? k = some v ∨ ∃ t ∈ tables, t.get? k = some v) := by
    induction tables with
    | nil => simp
    | cons t rest ih =>
        intro s hs
        have ht := h t List.mem_cons_self
        have hunion : ∀ k v, (s.union t).get? k = some v → v = f k := by
          intro k v hv
          rcases (Table.get?_union hs ht k v).1 hv with hv | hv
          · exact hs k v hv
          · exact ht k v hv
        rw [List.foldl_cons, ih (fun t' ht' => h t' (List.mem_cons_of_mem _ ht')) _ hunion,
          Table.get?_union hs ht, List.exists_mem_cons_iff, or_assoc]
  unfold Achieves.merged
  rw [key Table.empty fun _ _ h => absurd h (by simp)]
  simp

/-! ## Sources in tables -/

namespace Plan

variable {P : Plan}

/-- The code of a source. -/
def code (P : Plan) (s : Id) : String :=
  match P.start.node? s with
  | some n => n.cloneCode
  | none => ""

theorem code_of_mem {n : Node} (hn : n ∈ P.sources) : P.code n.id = n.cloneCode := by
  unfold code
  rw [Graph.node?_eq_some.2 ⟨rfl, (mem_sources.1 hn).2⟩]

theorem source_iff {s : Id} :
    (∃ n ∈ P.sources, n.id = s) ↔ P.start.label? s = some (NodeLabel.generic P.codeList) := by
  rw [← Graph.mem_idsWithLabel]
  unfold Graph.idsWithLabel
  rw [List.mem_map]
  rfl

/-- Chains of parent edges that begin at sources stay among the sources. -/
theorem Ready.source_of_chain {L : Set String} (hready : P.Ready L) {d s : Id}
    (hd : ∃ n ∈ P.sources, n.id = d) (hchain : ReflTransGen P.start.Up d s) :
    ∃ n ∈ P.sources, n.id = s := by
  induction hchain with
  | refl => exact hd
  | tail _ hup ih => exact source_iff.2 (hready.inside _ _ hup (source_iff.1 ih))

/-- The source carries one of the codes. -/
def Carries (P : Plan) (codes : List String) (s : Id) : Prop :=
  ∃ n ∈ P.sources, n.id = s ∧ n.cloneCode ∈ codes

/-- The source is an ancestor of one that carries one of the codes. -/
def Above (P : Plan) (codes : List String) (s : Id) : Prop :=
  ∃ d, P.Carries codes d ∧ TransGen P.start.Up d s

theorem Carries.source {codes : List String} {s : Id} (h : P.Carries codes s) :
    ∃ n ∈ P.sources, n.id = s := by
  obtain ⟨n, hn, hid, -⟩ := h
  exact ⟨n, hn, hid⟩

theorem Above.source {L : Set String} (hready : P.Ready L) {codes : List String} {s : Id}
    (h : P.Above codes s) : ∃ n ∈ P.sources, n.id = s := by
  obtain ⟨d, hd, hchain⟩ := h
  exact hready.source_of_chain hd.source hchain.to_reflTransGen

/-- What some batch of the codes finds, all of them find. -/
theorem exists_batch {reading : BatchScheduler} {codes : List String} {s : Id} :
    (∃ batch ∈ reading.split (TextSet.ofList codes).toList, P.Carries batch s) ↔
      P.Carries codes s := by
  have hcode : ∀ codes : List String, P.Carries codes s ↔
      ∃ code ∈ codes, ∃ n ∈ P.sources, n.id = s ∧ n.cloneCode = code := by
    intro codes
    constructor
    · rintro ⟨n, hn, hid, hmem⟩
      exact ⟨n.cloneCode, hmem, n, hn, hid, rfl⟩
    · rintro ⟨-, hmem, n, hn, hid, rfl⟩
      exact ⟨n, hn, hid, hmem⟩
  simp only [hcode]
  exact exists_split

theorem exists_batch_above {reading : BatchScheduler} {codes : List String} {s : Id} :
    (∃ batch ∈ reading.split (TextSet.ofList codes).toList, P.Above batch s) ↔
      P.Above codes s := by
  unfold Above
  constructor
  · rintro ⟨batch, hbatch, d, hd, hchain⟩
    exact ⟨d, exists_batch.1 ⟨batch, hbatch, hd⟩, hchain⟩
  · rintro ⟨d, hd, hchain⟩
    have hbatches : ∃ batch ∈ reading.split (TextSet.ofList codes).toList, P.Carries batch d :=
      exists_batch.2 hd
    obtain ⟨batch, hbatch, hd⟩ := hbatches
    exact ⟨batch, hbatch, d, hd, hchain⟩

/-- The table holds some sources with their codes. -/
def Holds (P : Plan) (wanted : Id → Prop) (t : CodesById) : Prop :=
  ∀ s c, t.get? s = some c ↔ wanted s ∧ c = P.code s

variable {wanted wanted' : Id → Prop} {t t' : CodesById}

theorem Holds.mem (h : P.Holds wanted t) {s : Id} : s ∈ t.keySet.toList ↔ wanted s := by
  rw [Table.mem_keySet, Table.mem_keys]
  constructor
  · rintro ⟨c, hc⟩
    exact ((h s c).1 hc).1
  · exact fun hs => ⟨P.code s, (h s _).2 ⟨hs, rfl⟩⟩

theorem Holds.contains (h : P.Holds wanted t) {s : Id} : t.contains s = true ↔ wanted s := by
  rw [Table.contains_iff, ← Table.mem_keys, ← Table.mem_keySet]
  exact h.mem

/-- The entries name the sources with their codes, -/
theorem Holds.entry (h : P.Holds wanted t) {e : Id × String} (he : e ∈ t.entries) :
    wanted e.1 ∧ e.2 = P.code e.1 := (h e.1 e.2).1 (Table.get?_eq_some_iff.2 he)

/-- and each source has one. -/
theorem Holds.exists_entry (h : P.Holds wanted t) {s : Id} :
    (∃ e ∈ t.entries, s = e.1) ↔ wanted s := by
  constructor
  · rintro ⟨e, he, rfl⟩
    exact (h.entry he).1
  · exact fun hs => ⟨_, Table.get?_eq_some_iff.1 ((h s (P.code s)).2 ⟨hs, rfl⟩), rfl⟩

theorem Holds.follows (h : P.Holds wanted t) (s : Id) (c : String) (hc : t.get? s = some c) :
    c = P.code s := ((h s c).1 hc).2

theorem Holds.union (h : P.Holds wanted t) (h' : P.Holds wanted' t') :
    P.Holds (fun s => wanted s ∨ wanted' s) (t.union t') := by
  intro s c
  rw [Table.get?_union h.follows h'.follows, h s c, h' s c, or_and_right]

/-- The sources of one table that are not in another one. -/
theorem Holds.without (h : P.Holds wanted t) (h' : P.Holds wanted' t') :
    P.Holds (fun s => wanted s ∧ ¬ wanted' s) (t.filter fun s _ => !t'.contains s) := by
  intro s c
  have hnot : (!t'.contains s) = true ↔ ¬ wanted' s := by
    rw [← h'.contains]
    simp
  rw [Table.get?_filter, Option.filter_eq_some_iff, h s c, hnot]
  constructor
  · rintro ⟨⟨hs, hc⟩, hnot⟩
    exact ⟨⟨hs, hnot⟩, hc⟩
  · rintro ⟨⟨hs, hnot⟩, hc⟩
    exact ⟨⟨hs, hc⟩, hnot⟩

theorem Holds.merged {tables : List CodesById} (h : ∀ t ∈ tables, ∃ part, P.Holds part t)
    (hwanted : ∀ s, wanted s ↔ ∃ t ∈ tables, ∃ c, t.get? s = some c) :
    P.Holds wanted (Achieves.merged tables) := by
  have hfollows : ∀ t ∈ tables, ∀ s c, t.get? s = some c → c = P.code s := by
    intro t ht
    obtain ⟨part, hpart⟩ := h t ht
    exact hpart.follows
  intro s c
  rw [get?_merged hfollows, hwanted]
  constructor
  · rintro ⟨t, ht, hc⟩
    exact ⟨⟨t, ht, c, hc⟩, hfollows t ht s c hc⟩
  · rintro ⟨⟨t, ht, d, hd⟩, rfl⟩
    exact ⟨t, ht, hfollows t ht s d hd ▸ hd⟩

/-- There is one such table. -/
theorem Holds.unique (h : P.Holds wanted t) (h' : P.Holds wanted t') : t = t' := by
  refine Table.ext_get? fun s => Option.ext fun c => ?_
  rw [h s c, h' s c]

theorem Holds.congr (h : P.Holds wanted t) (hiff : ∀ s, wanted s ↔ wanted' s) :
    P.Holds wanted' t := by
  intro s c
  rw [← hiff]
  exact h s c

end Plan

namespace Graph

variable {L : Set String} {P : Plan} {g : Graph}

/-- The table that is read from the rows about some sources. -/
theorem Site.holds_rows (h : Site L P g) (hready : P.Ready L) {ids : List Id}
    (hids : ∀ s ∈ ids, ∃ n ∈ P.sources, n.id = s) :
    P.Holds (· ∈ ids) (Table.ofList ((g.records ids).map fun n => (n.id, n.cloneCode))) := by
  have hmem : ∀ n, n ∈ g.records ids ↔ n ∈ P.sources ∧ n.id ∈ ids := by
    intro n
    rw [h.records hready hids]
    exact Plan.mem_records hids
  intro s c
  unfold Table.ofList
  rw [Table.get?_insertAll (f := P.code) ?_ fun _ _ h => absurd h (by simp)]
  · simp only [Table.get?_empty, reduceCtorEq, or_false, List.mem_map, Prod.mk.injEq]
    constructor
    · rintro ⟨n, hn, rfl, rfl⟩
      obtain ⟨hsource, hid⟩ := (hmem n).1 hn
      exact ⟨hid, (Plan.code_of_mem hsource).symm⟩
    · rintro ⟨hs, rfl⟩
      obtain ⟨n, hn, rfl⟩ := hids s hs
      exact ⟨n, (hmem n).2 ⟨hn, hs⟩, rfl, (Plan.code_of_mem hn).symm⟩
  · intro e he
    obtain ⟨n, hn, rfl⟩ := List.mem_map.1 he
    exact (Plan.code_of_mem ((hmem n).1 hn).1).symm

/-- Chains of parent edges from sources are as they were, and stay among the sources. -/
theorem Site.chain (h : Site L P g) (hready : P.Ready L) {d s : Id}
    (hd : ∃ n ∈ P.sources, n.id = d) :
    TransGen g.Up d s ↔ TransGen P.start.Up d s := by
  -- a chain from a source passes through sources, whose parent edges are those at the start
  have hstep : ∀ {x y}, (∃ n ∈ P.sources, n.id = x) → (g.Up x y ↔ P.start.Up x y) := by
    rintro x y ⟨n, hn, rfl⟩
    exact h.up hready hn y
  constructor
  · intro hchain
    induction hchain with
    | single hup => exact .single ((hstep hd).1 hup)
    | tail _ hup ih => exact ih.tail ((hstep (hready.source_of_chain hd ih.to_reflTransGen)).1 hup)
  · intro hchain
    induction hchain with
    | single hup => exact .single ((hstep hd).2 hup)
    | tail hchain hup ih =>
        exact ih.tail ((hstep (hready.source_of_chain hd hchain.to_reflTransGen)).2 hup)

theorem Site.mem_idsWithCodeIn (h : Site L P g) (hready : P.Ready L) {codes : List String}
    {s : Id} : s ∈ g.idsWithCodeIn (NodeLabel.generic P.codeList) codes ↔ P.Carries codes s := by
  rw [Graph.mem_idsWithCodeIn]
  unfold Plan.Carries
  constructor
  · rintro ⟨code, hcode, hcoded⟩
    have hstart := (h.preserves.coded hready.generic code s).1 hcoded
    obtain ⟨n, hn, rfl⟩ := Plan.source_iff.2 hstart.label
    exact ⟨n, hn, rfl, (hready.distinct.cloneCode_iff hn).2 hstart ▸ hcode⟩
  · rintro ⟨n, hn, rfl, hcode⟩
    have hstart := (hready.distinct.cloneCode_iff hn).1 rfl
    exact ⟨n.cloneCode, hcode, (h.preserves.coded hready.generic _ _).2 hstart⟩

/-- The answer names the sources with some codes, -/
theorem Site.answer_genericIds (h : Site L P g) (hready : P.Ready L) (codes : List String) :
    ∃ ids, g.answer (.genericIds P.codeList codes) = .rows (g.idCodeRows ids) ∧
      ∀ s, s ∈ ids ↔ P.Carries codes s :=
  ⟨_, rfl, fun _ => h.mem_idsWithCodeIn hready⟩

/-- or their ancestors. -/
theorem Site.answer_ancestryIds (h : Site L P g) (hready : P.Ready L) (codes : List String) :
    ∃ ids, g.answer (.ancestryIds P.codeList codes) = .rows (g.idCodeRows ids) ∧
      ∀ s, s ∈ ids ↔ P.Above codes s := by
  refine ⟨_, rfl, fun s => ?_⟩
  rw [Graph.mem_ancestors]
  refine exists_congr fun d => ?_
  rw [h.mem_idsWithCodeIn hready]
  exact and_congr_right fun hd => h.chain hready hd.source

end Graph

/-! ## Asking for sources -/

theorem genericIds_injective {codeList : Id} : Function.Injective (Query.genericIds codeList) := by
  intro batch batch' h
  cases h
  rfl

theorem ancestryIds_injective {codeList : Id} :
    Function.Injective (Query.ancestryIds codeList) := by
  intro batch batch' h
  cases h
  rfl

/-- The parts of an answer, for one batch of codes each, make the answer for all batches. -/
theorem Plan.Holds.of_parts {P : Plan} {statement : List String → Statement}
    (hinj : Function.Injective statement) {batches : List (List String)}
    {wanted : List String → Id → Prop} {parts parts' : List (Statement × CodesById)}
    (hparts : ∀ p ∈ parts, ∃ batch, p.1 = statement batch ∧ P.Holds (wanted batch) p.2)
    (hperm : (parts.map (·.1)).Perm (batches.map statement)) (hperm' : parts'.Perm parts) :
    P.Holds (fun s => ∃ batch ∈ batches, wanted batch s) (Achieves.merged (parts'.map (·.2))) := by
  have hmem : ∀ p, p ∈ parts' ↔ p ∈ parts := fun p => hperm'.mem_iff
  refine Plan.Holds.merged (fun t ht => ?_) fun s => ⟨?_, ?_⟩
  · obtain ⟨p, hp, rfl⟩ := List.mem_map.1 ht
    obtain ⟨batch, -, hbatch⟩ := hparts p ((hmem p).1 hp)
    exact ⟨wanted batch, hbatch⟩
  · -- a batch has a part, which holds what is wanted of it
    rintro ⟨batch, hbatch, hs⟩
    obtain ⟨p, hp, hstatement⟩ := List.mem_map.1 (hperm.mem_iff.2 (List.mem_map_of_mem hbatch))
    obtain ⟨batch', hstatement', hholds⟩ := hparts p hp
    obtain rfl := hinj (hstatement'.symm.trans hstatement)
    exact ⟨p.2, List.mem_map_of_mem ((hmem p).2 hp), P.code s, (hholds s _).2 ⟨hs, rfl⟩⟩
  · -- and a part belongs to one of the batches
    rintro ⟨t, ht, c, hc⟩
    obtain ⟨p, hp, rfl⟩ := List.mem_map.1 ht
    obtain ⟨batch, hstatement, hholds⟩ := hparts p ((hmem p).1 hp)
    obtain ⟨batch', hbatch', hstatement'⟩ :=
      List.mem_map.1 (hperm.mem_iff.1 (List.mem_map_of_mem ((hmem p).1 hp)))
    obtain rfl := hinj (hstatement'.trans hstatement)
    exact ⟨batch', hbatch', ((hholds s c).1 hc).1⟩

section Stores

variable {σ : Type} {env : Environment σ} {S : Sharing σ} {J spoilt fail : σ → Prop}
  {L : Set String} {P : Plan} {codes : List String}

/-- A query for sources, sent in batches of codes, finds what it wants of any of them. -/
theorem Environment.Copes.resolve (view : σ → Graph) (hready : P.Ready L)
    {reading : BatchScheduler} {query : List String → Query} (hinj : Function.Injective query)
    {wanted : List String → Id → Prop}
    (hwanted : ∀ batch s, wanted batch s → ∃ n ∈ P.sources, n.id = s)
    (hquery : ∀ g batch, Graph.Site L P g →
      ∃ ids, g.answer (query batch) = .rows (g.idCodeRows ids) ∧ ∀ s, s ∈ ids ↔ wanted batch s)
    (hstable : S.Stable J) (hspoilt : S.Stable spoilt) (hfail : S.Stable fail)
    (hsite : ∀ s, J s → Graph.Site L P (view s))
    (hlate : ∀ s, J s → env.expired s = true → spoilt s)
    (hask : ∀ s batch reply, J s →
      Method.tabular.fit? ((view s).answer (query batch)) = some reply →
      S.guar s (env.call .tabular (.of .gremlin (.query (query batch))) s).2 ∧
        Ends (fun r s' => r = reply ∧ J s') spoilt
          (env.call .tabular (.of .gremlin (.query (query batch))) s).1
          (env.call .tabular (.of .gremlin (.query (query batch))) s).2)
    (hgoOn : ∀ s batch, spoilt s →
      S.guar s (env.call .tabular (.of .gremlin (.query (query batch))) s).2 ∧
        spoilt (env.call .tabular (.of .gremlin (.query (query batch))) s).2)
    (hbad : ∀ s, spoilt s → fail s) :
    Copes env S J (Resolver.resolve ⟨.gremlin, reading⟩ query codes)
      (fun t s => P.Holds (fun id => ∃ batch ∈ reading.split (TextSet.ofList codes).toList,
        wanted batch id) t ∧ J s) fail := by
  have hstatement : Function.Injective fun batch : List String =>
      Statement.of .gremlin (.query (query batch)) := by
    intro batch batch' h
    exact hinj (Operation.query.inj (congrArg Statement.operation h))
  refine Copes.callAll (fun parts s => (∀ p ∈ parts, ∃ batch,
      p.1 = .of .gremlin (.query (query batch)) ∧ P.Holds (wanted batch) p.2) ∧ J s)
    (fun s hs => ⟨by simp, hs⟩) (fun parts => hstable.given _) hspoilt (fun t => hstable.given _)
    hfail (fun parts s hs => hlate s hs.2) ?_ (fun s st hs hst => ?_) ?_ hbad
  · rintro parts s _ ⟨hparts, hs⟩ hmem
    obtain ⟨batch, -, rfl⟩ := List.mem_map.1 hmem
    obtain ⟨ids, hanswer, hids⟩ := hquery (view s) batch (hsite s hs)
    have hsources : ∀ id ∈ ids, ∃ n ∈ P.sources, n.id = id :=
      fun id hid => hwanted batch id ((hids id).1 hid)
    have hfit : Method.tabular.fit? ((view s).answer (query batch)) =
        some ((view s).idCodeRows ids) := by
      rw [hanswer]
      rfl
    obtain ⟨hguar, hend⟩ := hask s batch _ hs hfit
    refine ⟨hguar, ?_⟩
    generalize (env.call .tabular (.of .gremlin (.query (query batch))) s).1 = result at hend ⊢
    cases result with
    | error e => exact hend
    | ok reply =>
        obtain ⟨rfl, hnext⟩ := hend
        refine ⟨_, readRows_idCodeRows (view s) ids, fun p hp => ?_, hnext⟩
        rcases List.mem_append.1 hp with hp | hp
        · exact hparts p hp
        · obtain rfl := List.mem_singleton.1 hp
          exact ⟨batch, rfl, ((hsite s hs).holds_rows hready hsources).congr hids⟩
  · obtain ⟨batch, -, rfl⟩ := List.mem_map.1 hst
    exact hgoOn s batch hs
  · rintro parts s ⟨hparts, hs⟩ hperm parts' hperm'
    exact ⟨Plan.Holds.of_parts hstatement hparts hperm hperm', hs⟩

end Stores

variable {L : Set String} {P : Plan} {data : Id → Bool} {key : HierarchyKey}
  {counted : String → Prop} {m : Milestones} {codes : List String} (hready : P.Ready L)
  (hL : NodeLabel.hierarchy key ∈ L)

include hready hL

/-- A query for sources that is sent at some milestones. -/
theorem achieves_resolve {reading : BatchScheduler} {query : List String → Query}
    (hinj : Function.Injective query) {wanted : List String → Id → Prop}
    (hwanted : ∀ batch s, wanted batch s → ∃ n ∈ P.sources, n.id = s)
    (hquery : ∀ g batch, Graph.Site L P g →
      ∃ ids, g.answer (query batch) = .rows (g.idCodeRows ids) ∧ ∀ s, s ∈ ids ↔ wanted batch s) :
    Achieves ScriptedStore.environment (company L P (NodeLabel.hierarchy key))
      (m.At L P data (NodeLabel.hierarchy key) counted)
      (Resolver.resolve ⟨.gremlin, reading⟩ query codes)
      fun t st => P.Holds (fun s => ∃ batch ∈ reading.split (TextSet.ofList codes).toList,
          wanted batch s) t ∧
        m.At L P data (NodeLabel.hierarchy key) counted st := by
  refine Achieves.iff_copes.2 (Copes.resolve ScriptedStore.graph hready hinj hwanted hquery
    (Milestones.stable_at hready) Achieves.stable_false Achieves.stable_false
    (fun st hst => hst.site) (fun st hst hlate => ?_) (fun st batch reply hst hfit => ?_)
    (fun _ _ h => h.elim) fun _ => id)
  · rw [hst.plain.intime] at hlate
    cases hlate
  · obtain ⟨hguar, hreply, hnext⟩ := hst.ask hready hL hfit
    exact Achieves.CallDoes.ends ⟨hguar, _, hreply, rfl, hnext⟩

/-- The sources with some codes. -/
theorem achieves_genericIds (reading writing : BatchScheduler) :
    Achieves ScriptedStore.environment (company L P (NodeLabel.hierarchy key))
      (m.At L P data (NodeLabel.hierarchy key) counted)
      ((Backend.gremlin reading writing).genericIds P.codeList codes)
      fun t st => P.Holds (P.Carries codes) t ∧
        m.At L P data (NodeLabel.hierarchy key) counted st := by
  refine (achieves_resolve hready hL genericIds_injective (fun batch s hs => hs.source)
    fun g batch hsite => hsite.answer_genericIds hready batch).weaken (fun _ => id) ?_
  rintro t st ⟨hholds, hst⟩
  exact ⟨hholds.congr fun s => Plan.exists_batch, hst⟩

/-- The ancestors of the sources with some codes. -/
theorem achieves_ancestryIds (reading writing : BatchScheduler) :
    Achieves ScriptedStore.environment (company L P (NodeLabel.hierarchy key))
      (m.At L P data (NodeLabel.hierarchy key) counted)
      ((Backend.gremlin reading writing).ancestryIds P.codeList codes)
      fun t st => P.Holds (P.Above codes) t ∧
        m.At L P data (NodeLabel.hierarchy key) counted st := by
  refine (achieves_resolve hready hL ancestryIds_injective (fun batch s hs => hs.source hready)
    fun g batch hsite => hsite.answer_ancestryIds hready batch).weaken (fun _ => id) ?_
  rintro t st ⟨hholds, hst⟩
  exact ⟨hholds.congr fun s => Plan.exists_batch_above, hst⟩

end InstanceHierarchy
