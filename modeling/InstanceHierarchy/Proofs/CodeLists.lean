import InstanceHierarchy.Proofs.RoundTrips
import InstanceHierarchy.Proofs.Views
import Mathlib.Data.Int.ConditionallyCompleteOrder
import Mathlib.Data.List.Permutation
import Mathlib.Data.Prod.Lex
import Mathlib.Data.String.Basic
import Mathlib.Order.WithBot

/-!
# The reads of a code list

Four reads tell what a code list holds: how many codes it has, all of them in their order, one of
them, and the places of some.  All of them select from the same members, but they send different
rows and make different use of them.  A code without a place is sent without a field in one read
and with null in another; where one row is wanted, several are a failure; and where rows are
collected by their code, a later row wins.  The reads agree as long as every member has a text for
its code: a member without one is listed with the empty code, but cannot be asked for.

The order of the members is that of a stable sort.  Which of two equal members comes first is left
open here.
-/

namespace InstanceHierarchy

namespace Table

/-- Of pairs that are put into a table one after another, the last one with a key wins. -/
theorem get?_insertAll_last (pairs : List (String × α)) (t : Table α) (k : String) :
    (t.insertAll pairs).get? k =
      (((pairs.filter fun e => e.1 = k).getLast?).map (·.2)).or (t.get? k) := by
  induction pairs generalizing t with
  | nil => rfl
  | cons e rest ih =>
      have hcons : t.insertAll (e :: rest) = (t.insert e.1 e.2).insertAll rest := rfl
      rw [hcons, ih, get?_insert]
      by_cases hk : e.1 = k
      · rw [List.filter_cons_of_pos (by simpa using hk), List.getLast?_cons, if_pos hk]
        cases (rest.filter fun e => e.1 = k).getLast? <;> rfl
      · rw [List.filter_cons_of_neg (by simpa using hk), if_neg hk]

theorem get?_ofList (pairs : List (String × α)) (k : String) :
    (ofList pairs).get? k = ((pairs.filter fun e => e.1 = k).getLast?).map (·.2) := by
  unfold ofList
  rw [get?_insertAll_last, get?_empty, Option.or_none]

theorem mem_keys_ofList {α : Type} {pairs : List (String × α)} {k : String} :
    k ∈ (ofList pairs).keys ↔ k ∈ pairs.map (·.1) := by
  rw [mem_keys, get?_ofList, ← Option.isSome_iff_exists, Option.isSome_map,
    List.getLast?_isSome, ne_eq, List.filter_eq_nil_iff]
  simp

end Table

/-! ## Rows that are written and read -/

theorem CodeEntry.ofJson_toJson {e : CodeEntry} (h : Fits64 e.order) :
    CodeEntry.ofJson e.toJson = .ok e := CodeEntry.format.roundTrips.back e h

theorem CodeOrder.ofJson_toJson {e : CodeOrder} (h : Fits64 e.order) :
    CodeOrder.ofJson e.toJson = .ok e := CodeOrder.format.roundTrips.back e h

theorem mapM_read {read : Reading α} {write : α → Json} {items : List α}
    (h : ∀ a ∈ items, read (write a) = .ok a) :
    (items.map write).mapM (fun row => (read row).mapError fun e => StoreError.decode e.message) =
      .ok items := by
  induction items with
  | nil => rfl
  | cons a rest ih =>
      rw [List.map_cons, List.mapM_cons, h a List.mem_cons_self,
        ih fun b hb => h b (List.mem_cons_of_mem a hb)]
      rfl

/-! ## Places -/

/-- Where a code stands: by its place, without a place last, and then by its text. -/
def rank (place : Option Int) (code : String) : WithTop Int ×ₗ String :=
  toLex (place.elim ⊤ fun n => (n : WithTop Int), code)

theorem placeLe_iff {a b : Option Int × String} :
    placeLe a b = true ↔ rank a.1 a.2 ≤ rank b.1 b.2 := by
  obtain ⟨a, s⟩ := a
  obtain ⟨b, t⟩ := b
  unfold rank
  rw [Prod.Lex.toLex_le_toLex]
  cases a <;> cases b <;> simp [placeLe]

/-! ## Members -/

theorem dropRepeats_sublist (key : α → Id) (xs : List α) : (dropRepeats key xs).Sublist xs := by
  induction xs with
  | nil => exact List.Sublist.refl _
  | cons x rest ih =>
      unfold dropRepeats
      split
      · exact List.singleton_sublist.2 List.mem_cons_self
      · rename_i y ys hrest
        rw [hrest] at ih
        split
        · exact ((List.sublist_cons_self y ys).trans ih).cons_cons x
        · exact ih.cons_cons x

/-- No key is lost. -/
theorem mem_keys_dropRepeats {key : α → Id} {xs : List α} {k : Id} :
    k ∈ (dropRepeats key xs).map key ↔ k ∈ xs.map key := by
  induction xs with
  | nil => exact Iff.rfl
  | cons x rest ih =>
      unfold dropRepeats
      rw [List.map_cons, List.mem_cons, ← ih]
      split
      · rename_i hrest
        simp [hrest]
      · rename_i y ys hrest
        rw [hrest]
        split
        · rename_i hxy
          simp [hxy]
        · simp

/-- The place that an edge gives a code. -/
def StoredEdge.place (e : StoredEdge) : Option Int :=
  (e.properties.get? Property.order).bind Json.int64?

theorem StoredEdge.fits64_place (e : StoredEdge) : Fits64 e.place := by
  unfold place
  cases e.properties.get? Property.order with
  | none => exact fun n hn => absurd hn (Option.not_mem_none n)
  | some v => exact v.fits64_int64?

namespace Graph

/-- An edge links a code to a code list. -/
structure Lists (g : Graph) (codeList : Id) (e : StoredEdge) (n : Node) : Prop where
  edge : e ∈ g.edges
  label : e.label = EdgeLabel.usedBy
  target : g.label? e.target = some (NodeLabel.codeList codeList)
  source : g.node? e.source = some n
  code : n.label = NodeLabel.code codeList

theorem Lists.eq_of_id {g : Graph} {codeList : Id} {e e' : StoredEdge} {n n' : Node}
    (h : g.Lists codeList e n) (h' : g.Lists codeList e' n') (hid : n.id = n'.id) : n = n' := by
  have hsource := (node?_eq_some.1 h.source).1
  have hsource' := (node?_eq_some.1 h'.source).1
  refine Option.some.inj (h.source.symm.trans ?_)
  rw [← hsource, hid, hsource', h'.source]

/-- The member that an edge adds to a code list. -/
def memberBy (g : Graph) (codeList : Id) (e : StoredEdge) : Option (Node × Option Int) :=
  if g.isLabelled e.target (NodeLabel.codeList codeList) then
    match g.node? e.source with
    | some n => if n.label = NodeLabel.code codeList then some (n, e.place) else none
    | none => none
  else none

/-- The members that edges add to a code list, in the order of the edges. -/
def linked (g : Graph) (codeList : Id) : List (Node × Option Int) :=
  (g.edgesWithLabel EdgeLabel.usedBy).filterMap (g.memberBy codeList)

/-- A member comes no later than another one in the list. -/
def memberLe (a b : Node × Option Int) : Bool :=
  placeLe (a.2, (a.1.text? Property.value).getD "") (b.2, (b.1.text? Property.value).getD "")

variable {g : Graph} {codeList : Id}

theorem listMembers_eq : g.listMembers codeList =
    dropRepeats (·.1.id) ((g.linked codeList).mergeSort memberLe) := rfl

theorem memberBy_eq_some {e : StoredEdge} {n : Node} {place : Option Int} (he : e ∈ g.edges)
    (hlabel : e.label = EdgeLabel.usedBy) : g.memberBy codeList e = some (n, place) ↔
      g.Lists codeList e n ∧ e.place = place := by
  unfold memberBy
  constructor
  · intro h
    split at h
    · rename_i htarget
      split at h
      · rename_i m hm
        split at h
        · rename_i hcode
          cases h
          exact ⟨⟨he, hlabel, isLabelled_iff.1 htarget, hm, hcode⟩, rfl⟩
        · cases h
      · cases h
    · cases h
  · rintro ⟨h, rfl⟩
    simp only [if_pos (isLabelled_iff.2 h.target), h.source, if_pos h.code]

theorem mem_linked {n : Node} {place : Option Int} : (n, place) ∈ g.linked codeList ↔
    ∃ e, g.Lists codeList e n ∧ e.place = place := by
  unfold linked edgesWithLabel
  rw [List.mem_filterMap]
  constructor
  · rintro ⟨e, he, hmember⟩
    obtain ⟨he, hlabel⟩ := List.mem_filter.1 he
    exact ⟨e, (memberBy_eq_some he (of_decide_eq_true hlabel)).1 hmember⟩
  · rintro ⟨e, h, hplace⟩
    exact ⟨e, List.mem_filter.2 ⟨h.edge, decide_eq_true h.label⟩,
      (memberBy_eq_some h.edge h.label).2 ⟨h, hplace⟩⟩

/-- A member comes from an edge. -/
theorem lists_of_mem {m : Node × Option Int} (h : m ∈ g.listMembers codeList) :
    ∃ e, g.Lists codeList e m.1 ∧ e.place = m.2 := by
  rw [listMembers_eq] at h
  exact mem_linked.1 (List.mem_mergeSort.1 ((dropRepeats_sublist _ _).subset h))

/-- No node that an edge links is missing among the members. -/
theorem Lists.exists_member {e : StoredEdge} {n : Node} (h : g.Lists codeList e n) :
    ∃ m ∈ g.listMembers codeList, m.1 = n := by
  have hlinked : (n, e.place) ∈ (g.linked codeList).mergeSort memberLe :=
    List.mem_mergeSort.2 (mem_linked.2 ⟨e, h, rfl⟩)
  have hid : n.id ∈ (g.listMembers codeList).map (·.1.id) := by
    rw [listMembers_eq, mem_keys_dropRepeats]
    exact List.mem_map_of_mem (f := fun m : Node × Option Int => m.1.id) hlinked
  obtain ⟨m, hm, hmid⟩ := List.mem_map.1 hid
  obtain ⟨e', he', -⟩ := lists_of_mem hm
  exact ⟨m, hm, he'.eq_of_id h hmid⟩

/-- The members are sorted. -/
theorem pairwise_listMembers (g : Graph) (codeList : Id) :
    (g.listMembers codeList).Pairwise fun a b => memberLe a b := by
  rw [listMembers_eq]
  refine List.Pairwise.sublist (dropRepeats_sublist _ _) (List.pairwise_mergeSort ?_ ?_ _)
  · intro a b c hab hbc
    exact placeLe_iff.2 ((placeLe_iff.1 hab).trans (placeLe_iff.1 hbc))
  · intro a b
    rw [Bool.or_eq_true]
    exact (le_total (rank _ _) (rank _ _)).imp placeLe_iff.2 placeLe_iff.2

/-- Every member of a code list has a text for its code. -/
def Valued (g : Graph) (codeList : Id) : Prop :=
  ∀ e n, g.Lists codeList e n → (n.text? Property.value).isSome

theorem valued_iff :
    g.Valued codeList ↔ ∀ m ∈ g.linked codeList, (m.1.text? Property.value).isSome := by
  constructor
  · rintro h ⟨n, place⟩ hm
    obtain ⟨e, he, -⟩ := mem_linked.1 hm
    exact h e n he
  · intro h e n he
    exact h _ (mem_linked.2 ⟨e, he, rfl⟩)

instance (g : Graph) (codeList : Id) : Decidable (g.Valued codeList) :=
  decidable_of_iff _ valued_iff.symm

theorem Valued.text?_eq (h : g.Valued codeList) {m : Node × Option Int}
    (hm : m ∈ g.listMembers codeList) :
    m.1.text? Property.value = some (memberEntry m).code := by
  obtain ⟨e, he, -⟩ := lists_of_mem hm
  obtain ⟨code, hcode⟩ := Option.isSome_iff_exists.1 (h e m.1 he)
  show _ = some ((m.1.text? Property.value).getD "")
  rw [hcode]
  rfl

/-- The entries of a code list. -/
def entries (g : Graph) (codeList : Id) : List CodeEntry := (g.listMembers codeList).map memberEntry

theorem fits64_of_mem {m : Node × Option Int} (hm : m ∈ g.listMembers codeList) : Fits64 m.2 := by
  obtain ⟨e, -, hplace⟩ := lists_of_mem hm
  exact hplace ▸ e.fits64_place

theorem fits64_of_mem_entries {x : CodeEntry} (hx : x ∈ g.entries codeList) : Fits64 x.order := by
  obtain ⟨m, hm, rfl⟩ := List.mem_map.1 hx
  exact fits64_of_mem hm

/-- The members with a code make the entries with it. -/
theorem Valued.map_filter (h : g.Valued codeList) (c : String) :
    ((g.listMembers codeList).filter fun m => m.1.text? Property.value = some c).map memberEntry =
      (g.entries codeList).filter fun x => x.code = c := by
  unfold entries
  rw [List.filter_map]
  refine congrArg (List.map memberEntry) (List.filter_congr fun m hm => ?_)
  rw [h.text?_eq hm]
  simp

/-- The code of a member, if it is one of some codes, with the place of the member. -/
def placed? (codes : List String) (m : Node × Option Int) : Option (String × Option Int) :=
  match m.1.text? Property.value with
  | some code => if code ∈ codes then some (code, m.2) else none
  | none => none

theorem placed?_eq_some {codes : List String} {m : Node × Option Int} {c : String}
    {place : Option Int} : placed? codes m = some (c, place) ↔
      m.1.text? Property.value = some c ∧ c ∈ codes ∧ m.2 = place := by
  unfold placed?
  cases m.1.text? Property.value with
  | none => simp
  | some code =>
      by_cases hcode : code ∈ codes
      · simp only [if_pos hcode, Option.some.injEq, Prod.mk.injEq]
        constructor
        · rintro ⟨rfl, hplace⟩
          exact ⟨rfl, hcode, hplace⟩
        · rintro ⟨rfl, -, hplace⟩
          exact ⟨rfl, hplace⟩
      · simp only [if_neg hcode, Option.some.injEq]
        constructor
        · exact fun h => nomatch h
        · rintro ⟨rfl, hc, -⟩
          exact absurd hc hcode

/-- The rows about the places of some codes. -/
theorem answer_codesOrder (codes : List String) : g.answer (.codesOrder codeList codes) =
    .rows ((((g.listMembers codeList).filterMap (placed? codes)).map fun x =>
      CodeOrder.mk x.1 x.2).map CodeOrder.toJson) := by
  show Outcome.rows _ = _
  rw [List.map_map, List.map_filterMap]
  refine congrArg Outcome.rows (List.filterMap_congr fun m _ => ?_)
  unfold placed?
  cases m.1.text? Property.value with
  | none => rfl
  | some code =>
      by_cases hcode : code ∈ codes
      · simp only [if_pos hcode]
        rfl
      · simp only [if_neg hcode]
        rfl

/-- The members with one of some codes make the entries with one of them. -/
theorem Valued.filterMap_placed (h : g.Valued codeList) (codes : List String) :
    (g.listMembers codeList).filterMap (placed? codes) =
      ((g.entries codeList).filter fun x => x.code ∈ codes).map fun x => (x.code, x.order) := by
  unfold entries
  rw [List.filter_map, List.map_map, ← List.filterMap_eq_map, List.filterMap_filter]
  refine List.filterMap_congr fun m hm => ?_
  unfold placed?
  rw [h.text?_eq hm]
  simp only [Function.comp_apply, decide_eq_true_eq]
  rfl

/-! ## Reading -/

/-- Rows that can all be read are read. -/
theorem run_askRows (r : Reader) {α : Type} {read : Reading α} (write : α → Json) {q : Query}
    {items : List α} (hrows : g.answer q = .rows (items.map write))
    (hread : ∀ a ∈ items, read (write a) = .ok a) :
    Environment.graph.run (r.askRows read q).run g = (.ok items, g) := by
  have hask : Environment.graph.run (r.ask .tabular q).run g = (.ok (items.map write), g) :=
    run_ask r (by rw [hrows]; rfl)
  refine (run_bind_ok _ hask).trans ?_
  rw [mapM_read hread]
  exact run_liftExcept _

theorem run_countCodes (r : Reader) :
    Environment.graph.run (r.countCodes codeList).run g =
      (.ok (g.entries codeList).length, g) := by
  refine run_ask r (congrArg some ?_)
  unfold entries
  rw [List.length_map]

theorem run_codes (r : Reader) :
    Environment.graph.run (r.codes codeList).run g = (.ok (g.entries codeList), g) := by
  refine run_askRows r CodeEntry.toJson ?_ fun x hx =>
    CodeEntry.ofJson_toJson (fits64_of_mem_entries hx)
  unfold entries
  rw [List.map_map]
  rfl

theorem run_code (r : Reader) (h : g.Valued codeList) (c : String) :
    Environment.graph.run (r.code codeList c).run g =
      (exactlyOne ((g.entries codeList).filter fun x => x.code = c), g) := by
  have hrows : Environment.graph.run (r.askRows CodeEntry.ofJson (.code codeList c)).run g =
      (.ok ((g.entries codeList).filter fun x => x.code = c), g) := by
    refine run_askRows r CodeEntry.toJson ?_ fun x hx =>
      CodeEntry.ofJson_toJson (fits64_of_mem_entries (List.mem_of_mem_filter hx))
    rw [← h.map_filter, List.map_map]
    rfl
  exact (run_bind_ok _ hrows).trans (run_liftExcept _)

/-- The places of the requested codes, from a row for each member with one of them. -/
theorem run_codesOrder_members (r : Reader) (codes : List String) :
    Environment.graph.run (r.codesOrder codeList codes).run g =
      (.ok (Table.ofList ((g.listMembers codeList).filterMap (placed? codes))), g) := by
  have hwanted : (g.listMembers codeList).filterMap (placed? (TextSet.ofList codes).toList) =
      (g.listMembers codeList).filterMap (placed? codes) := by
    unfold placed?
    simp only [TextSet.mem_ofList]
  unfold Reader.codesOrder
  simp only
  generalize (TextSet.ofList codes).toList = wanted at hwanted
  rw [← hwanted]
  cases wanted with
  | nil =>
      have hnone : (g.listMembers codeList).filterMap (placed? []) = [] := by
        refine List.filterMap_eq_nil_iff.2 fun m _ => ?_
        unfold placed?
        cases m.1.text? Property.value <;> rfl
      rw [hnone]
      rfl
  | cons c rest =>
      have hrows : Environment.graph.run
          (r.askRows CodeOrder.ofJson (.codesOrder codeList (c :: rest))).run g =
          (.ok (((g.listMembers codeList).filterMap (placed? (c :: rest))).map fun x =>
            CodeOrder.mk x.1 x.2), g) := by
        refine run_askRows r CodeOrder.toJson (answer_codesOrder _) fun row hrow => ?_
        obtain ⟨x, hx, rfl⟩ := List.mem_map.1 hrow
        obtain ⟨m, hm, hplaced⟩ := List.mem_filterMap.1 hx
        obtain ⟨-, -, hplace⟩ := placed?_eq_some.1 hplaced
        exact CodeOrder.ofJson_toJson (hplace ▸ fits64_of_mem hm)
      refine (run_bind_ok _ hrows).trans ?_
      rw [List.map_map]
      show (Except.ok (Table.ofList (List.map id _)), g) = _
      rw [List.map_id]

/-- The places of the requested codes, from a row for each entry with one of them. -/
theorem run_codesOrder (r : Reader) (h : g.Valued codeList) (codes : List String) :
    Environment.graph.run (r.codesOrder codeList codes).run g =
      (.ok (Table.ofList (((g.entries codeList).filter fun x => x.code ∈ codes).map fun x =>
        (x.code, x.order))), g) := by
  rw [run_codesOrder_members, h.filterMap_placed]

end Graph

theorem exactlyOne_eq_ok {xs : List α} {a : α} : exactlyOne xs = .ok a ↔ xs = [a] := by
  match xs with
  | [] => simp [exactlyOne]
  | [x] => simp [exactlyOne]
  | x :: y :: rest => simp [exactlyOne]

theorem exactlyOne_eq_notFound {xs : List α} : exactlyOne xs = .error .notFound ↔ xs = [] := by
  match xs with
  | [] => simp [exactlyOne]
  | [x] => simp [exactlyOne]
  | x :: y :: rest => simp [exactlyOne]

theorem exactlyOne_eq_multipleFound {xs : List α} :
    exactlyOne xs = .error .multipleFound ↔ 2 ≤ xs.length := by
  match xs with
  | [] => simp [exactlyOne]
  | [x] => simp [exactlyOne]
  | x :: y :: rest => simp [exactlyOne]

namespace Graph

variable {g : Graph} {codeList : Id}

/-- How the reads of a code list fit together: all of them say what its entries say. -/
structure Reads (g : Graph) (b : Backend) (codeList : Id) (entries : List CodeEntry) : Prop where
  codes : Environment.graph.run (b.reader.codes codeList).run g = (.ok entries, g)
  /-- Every entry stands for an edge that links a code. -/
  described : ∀ x ∈ entries, ∃ e n, g.Lists codeList e n ∧ n.text? Property.value = some x.code ∧
    (n.text? Property.label).getD "" = x.label ∧ e.place = x.order
  /-- No code that is linked is missing. -/
  complete : ∀ e n c, g.Lists codeList e n → n.text? Property.value = some c →
    ∃ x ∈ entries, x.code = c
  sorted : entries.Pairwise fun x y => rank x.order x.code ≤ rank y.order y.code
  count : Environment.graph.run (b.reader.countCodes codeList).run g = (.ok entries.length, g)
  found : ∀ c x, Environment.graph.run (b.reader.code codeList c).run g = (.ok x, g) ↔
    entries.filter (·.code = c) = [x]
  missing : ∀ c, Environment.graph.run (b.reader.code codeList c).run g = (.error .notFound, g) ↔
    ∀ x ∈ entries, x.code ≠ c
  several : ∀ c,
    Environment.graph.run (b.reader.code codeList c).run g = (.error .multipleFound, g) ↔
      2 ≤ (entries.filter (·.code = c)).length
  places : ∀ codes, ∃ table,
    Environment.graph.run (b.reader.codesOrder codeList codes).run g = (.ok table, g) ∧
    (∀ c, c ∈ table.keys ↔ c ∈ codes ∧ ∃ x ∈ entries, x.code = c) ∧
    ∀ c ∈ codes, ∀ x, Environment.graph.run (b.reader.code codeList c).run g = (.ok x, g) →
      table.get? c = some x.order

/-- The pairs that a code has among the places of some codes. -/
theorem filter_places {codes : List String} {c : String} (hc : c ∈ codes) :
    ((((g.entries codeList).filter fun x => x.code ∈ codes).map fun x =>
        (x.code, x.order)).filter fun e => e.1 = c) =
      ((g.entries codeList).filter fun x => x.code = c).map fun x => (x.code, x.order) := by
  rw [List.filter_map, List.filter_filter]
  refine congrArg _ (List.filter_congr fun x _ => ?_)
  by_cases hx : x.code = c
  · simp [hx, hc]
  · simp [hx]

/-- The reads of a code list agree, through either backend. -/
theorem codeList_reads (b : Backend) (h : g.Valued codeList) :
    ∃ entries, g.Reads b codeList entries := by
  refine ⟨g.entries codeList, run_codes _, ?_, ?_, ?_, run_countCodes _, ?_, ?_, ?_, ?_⟩
  · intro x hx
    obtain ⟨m, hm, rfl⟩ := List.mem_map.1 hx
    obtain ⟨e, he, hplace⟩ := lists_of_mem hm
    exact ⟨e, m.1, he, h.text?_eq hm, rfl, hplace⟩
  · intro e n c he hvalue
    -- the node of the edge is a member, though perhaps with the place of another edge
    have hid : n.id ∈ (g.listMembers codeList).map (·.1.id) := by
      rw [listMembers_eq, mem_keys_dropRepeats]
      exact List.mem_map_of_mem (f := fun m : Node × Option Int => m.1.id)
        (List.mem_mergeSort.2 (mem_linked.2 ⟨e, he, rfl⟩))
    obtain ⟨m, hm, hmid⟩ := List.mem_map.1 hid
    obtain ⟨e', he', -⟩ := lists_of_mem hm
    obtain rfl := he'.eq_of_id he hmid
    exact ⟨memberEntry m, List.mem_map_of_mem hm,
      Option.some.inj ((h.text?_eq hm).symm.trans hvalue)⟩
  · unfold entries
    exact List.pairwise_map.2 ((pairwise_listMembers g codeList).imp placeLe_iff.1)
  · intro c x
    rw [run_code _ h, Prod.mk.injEq, and_iff_left rfl, exactlyOne_eq_ok]
  · intro c
    rw [run_code _ h, Prod.mk.injEq, and_iff_left rfl, exactlyOne_eq_notFound,
      List.filter_eq_nil_iff]
    simp
  · intro c
    rw [run_code _ h, Prod.mk.injEq, and_iff_left rfl, exactlyOne_eq_multipleFound]
  · intro codes
    refine ⟨_, run_codesOrder _ h codes, fun c => ?_, fun c hc x hx => ?_⟩
    · rw [Table.mem_keys_ofList, List.map_map, List.mem_map]
      constructor
      · rintro ⟨x, hx, rfl⟩
        obtain ⟨hx, hmem⟩ := List.mem_filter.1 hx
        exact ⟨of_decide_eq_true hmem, x, hx, rfl⟩
      · rintro ⟨hc, x, hx, rfl⟩
        exact ⟨x, List.mem_filter.2 ⟨hx, decide_eq_true hc⟩, rfl⟩
    · rw [run_code _ h, Prod.mk.injEq, and_iff_left rfl, exactlyOne_eq_ok] at hx
      rw [Table.get?_ofList, filter_places hc, hx]
      rfl

/-- A code list with two nodes for one code, of which one is linked without a whole number. -/
def sharedCode : Graph where
  nodes := Table.ofList
    [("a", ⟨NodeLabel.code "list", Table.ofList [(Property.value, .str "part")]⟩),
      ("b", ⟨NodeLabel.code "list", Table.ofList [(Property.value, .str "all")]⟩),
      ("c", ⟨NodeLabel.code "list", Table.ofList [(Property.value, .str "part")]⟩),
      ("l", ⟨NodeLabel.codeList "list", .empty⟩)]
  edges :=
    [⟨⟨"e", EdgeLabel.usedBy, "a", "l"⟩, Table.ofList [(Property.order, .str "first")]⟩,
      ⟨⟨"f", EdgeLabel.usedBy, "b", "l"⟩, Table.ofList [(Property.order, .int 2)]⟩,
      ⟨⟨"h", EdgeLabel.usedBy, "c", "l"⟩, Table.ofList [(Property.order, .int 1)]⟩]
  supply := ⟨longerAndLonger 2, 0⟩

theorem codeList_reads_sharedCode :
    sharedCode.Valued "list" ∧
      (∃ entries, sharedCode.Reads (.cypher .standard) "list" entries) ∧
      sharedCode.entries "list" =
        [⟨"part", "", some 1⟩, ⟨"all", "", some 2⟩, ⟨"part", "", none⟩] := by
  have h : sharedCode.Valued "list" := by decide +kernel
  exact ⟨h, codeList_reads _ h, by cbv⟩

end Graph
end InstanceHierarchy
