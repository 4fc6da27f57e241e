import InstanceHierarchy.Proofs.CodeLists
import Mathlib.Data.List.Sort
import Mathlib.Data.Set.Card

/-!
# How often a code is listed

A node of a code may be linked to its code list by several edges.  The members of the list are
sorted by place and code, and only then are repeats dropped, of which only neighbours are noticed.
So a node is listed once as long as no edge of another node stands between two of its own; which
edges do depends on the places of all codes.  Sorting is stable: edges with equal places and codes
stay in the order in which they came.
-/

namespace InstanceHierarchy

/-! ## Neighbouring repeats -/

variable {α : Type} {key : α → Id}

theorem dropRepeats_cons (key : α → Id) (x : α) (rest : List α) :
    ∃ ys, dropRepeats key (x :: rest) = x :: ys := by
  unfold dropRepeats
  split
  · exact ⟨_, rfl⟩
  · split <;> exact ⟨_, rfl⟩

/-- Between two items with equal keys there are none with other keys. -/
def Contiguous (key : α → Id) (xs : List α) : Prop :=
  ∀ a b c, [a, b, c].Sublist xs → key a = key c → key b = key a

theorem contiguous_cons_of_eq {x y : α} {rest : List α} (h : key x = key y) :
    Contiguous key (x :: y :: rest) ↔ Contiguous key (y :: rest) := by
  constructor
  · exact fun hall a b c hsub => hall a b c (hsub.cons x)
  · intro hall a b c hsub hac
    rcases List.sublist_cons_iff.1 hsub with hsub | ⟨_, heq, hsub⟩
    · exact hall a b c hsub hac
    · obtain ⟨rfl, rfl⟩ := List.cons.inj heq
      rcases List.sublist_cons_iff.1 hsub with hsub | ⟨_, heq, -⟩
      · exact (hall y b c (hsub.cons_cons y) (h.symm.trans hac)).trans h.symm
      · exact (congrArg key (List.cons.inj heq).1).trans h.symm

theorem contiguous_cons_of_ne {x y : α} {rest : List α} (h : key x ≠ key y) :
    Contiguous key (x :: y :: rest) ↔
      key x ∉ (y :: rest).map key ∧ Contiguous key (y :: rest) := by
  constructor
  · intro hall
    refine ⟨fun hmem => ?_, fun a b c hsub => hall a b c (hsub.cons x)⟩
    obtain ⟨c, hc, hkey⟩ := List.mem_map.1 hmem
    rcases List.mem_cons.1 hc with rfl | hc
    · exact h hkey.symm
    · have hsub : [x, y, c].Sublist (x :: y :: rest) :=
        ((List.singleton_sublist.2 hc).cons_cons y).cons_cons x
      exact h (hall x y c hsub hkey.symm).symm
  · rintro ⟨hnew, hall⟩ a b c hsub hac
    rcases List.sublist_cons_iff.1 hsub with hsub | ⟨_, heq, hsub⟩
    · exact hall a b c hsub hac
    · obtain ⟨rfl, rfl⟩ := List.cons.inj heq
      have hc : c ∈ y :: rest := hsub.subset (List.mem_cons_of_mem b List.mem_cons_self)
      exact absurd (List.mem_map.2 ⟨c, hc, hac.symm⟩) hnew

/-- Once repeats are dropped no key is left twice, if and only if equal keys stood together. -/
theorem nodup_dropRepeats_iff {xs : List α} :
    ((dropRepeats key xs).map key).Nodup ↔ Contiguous key xs := by
  induction xs with
  | nil => simp [dropRepeats, Contiguous]
  | cons x rest ih =>
      cases rest with
      | nil => simp [dropRepeats, Contiguous]
      | cons y rest =>
          obtain ⟨ys, hys⟩ := dropRepeats_cons key y rest
          have hkeys : ∀ k, k ∈ (y :: ys).map key ↔ k ∈ (y :: rest).map key := fun k => by
            rw [← hys, mem_keys_dropRepeats]
          rw [hys] at ih
          by_cases hxy : key x = key y
          · have hdrop : dropRepeats key (x :: y :: rest) = x :: ys := by
              rw [dropRepeats, hys]
              exact if_pos hxy
            rw [hdrop, contiguous_cons_of_eq hxy, ← ih, List.map_cons, List.map_cons, hxy]
          · have hdrop : dropRepeats key (x :: y :: rest) = x :: y :: ys := by
              rw [dropRepeats, hys]
              exact if_neg hxy
            rw [hdrop, contiguous_cons_of_ne hxy, ← ih, ← hkeys, List.map_cons, List.nodup_cons]

/-- There are as many items left as keys, if and only if no key is left twice. -/
theorem length_dropRepeats_iff {xs : List α} :
    (dropRepeats key xs).length = (xs.map key).toFinset.card ↔ Contiguous key xs := by
  have hset : (xs.map key).toFinset = ((dropRepeats key xs).map key).toFinset := by
    ext k
    rw [List.mem_toFinset, List.mem_toFinset, mem_keys_dropRepeats]
  rw [← nodup_dropRepeats_iff, hset, ← List.length_map (f := key), eq_comm]
  exact Multiset.toFinset_card_eq_card_iff_nodup

/-! ## Stable sorting -/

/-- What a member is sorted by: its place and then its code. -/
def memberRank (m : Node × Option Int) : WithTop Int ×ₗ String :=
  rank m.2 ((m.1.text? Property.value).getD "")

/-- Where the member of an edge stands in the list: by its place and code, and among equals by the
number of the edge. -/
def standing (m : (Node × Option Int) × Nat) : (WithTop Int ×ₗ String) ×ₗ Nat :=
  toLex (memberRank m.1, m.2)

namespace Graph

theorem memberLe_iff {m m' : Node × Option Int} :
    memberLe m m' = true ↔ memberRank m ≤ memberRank m' := placeLe_iff

theorem zipIdxLE_iff {m m' : (Node × Option Int) × Nat} :
    List.zipIdxLE memberLe m m' = true ↔ standing m ≤ standing m' := by
  unfold standing List.zipIdxLE
  rw [Prod.Lex.toLex_le_toLex]
  by_cases hle : memberRank m.1 ≤ memberRank m'.1
  · rw [if_pos (memberLe_iff.2 hle)]
    by_cases hge : memberRank m'.1 ≤ memberRank m.1
    · rw [if_pos (memberLe_iff.2 hge), decide_eq_true_eq]
      simp [le_antisymm hle hge]
    · rw [if_neg (mt memberLe_iff.1 hge)]
      simp [lt_of_not_ge hge]
  · rw [if_neg (mt memberLe_iff.1 hle)]
    have hgt := lt_of_not_ge hle
    simp [hgt.not_gt, hgt.ne']

/-- The members in the order of the list, with the numbers of their edges. -/
def ranked (ms : List (Node × Option Int)) : List ((Node × Option Int) × Nat) :=
  ms.zipIdx.mergeSort (List.zipIdxLE memberLe)

theorem map_ranked (ms : List (Node × Option Int)) :
    (ranked ms).map (·.1) = ms.mergeSort memberLe := List.mergeSort_zipIdx

theorem mem_ranked {ms : List (Node × Option Int)} {m : (Node × Option Int) × Nat} :
    m ∈ ranked ms ↔ ms[m.2]? = some m.1 :=
  List.mem_mergeSort.trans List.mk_mem_zipIdx_iff_getElem?

/-- No two members stand in one place. -/
theorem pairwise_ranked (ms : List (Node × Option Int)) :
    (ranked ms).Pairwise fun m m' => standing m < standing m' := by
  have hle : (ranked ms).Pairwise fun m m' => standing m ≤ standing m' := by
    refine (List.pairwise_mergeSort ?_ ?_ _).imp zipIdxLE_iff.1
    · intro a b c hab hbc
      exact zipIdxLE_iff.2 ((zipIdxLE_iff.1 hab).trans (zipIdxLE_iff.1 hbc))
    · intro a b
      rw [Bool.or_eq_true]
      exact (le_total (standing a) (standing b)).imp zipIdxLE_iff.2 zipIdxLE_iff.2
  have hnodup : ((ranked ms).map (·.2)).Nodup := by
    have hperm := (List.mergeSort_perm ms.zipIdx (List.zipIdxLE memberLe)).map (·.2)
    refine hperm.nodup_iff.2 ?_
    rw [List.zipIdx_map_snd]
    exact List.nodup_range'
  refine (hle.and (List.pairwise_map.1 hnodup)).imp fun ⟨hle, hne⟩ => lt_of_le_of_ne hle ?_
  exact fun heq => hne (congrArg (fun s => (ofLex s).2) heq)

/-- Three members come one after another in the list, if and only if they stand there so. -/
theorem sublist_ranked_iff {ms : List (Node × Option Int)} {a b c : (Node × Option Int) × Nat} :
    [a, b, c].Sublist (ranked ms) ↔
      (a ∈ ranked ms ∧ b ∈ ranked ms ∧ c ∈ ranked ms) ∧
        standing a < standing b ∧ standing b < standing c := by
  constructor
  · intro hsub
    obtain ⟨hafter, hrest⟩ := List.pairwise_cons.1 ((pairwise_ranked ms).sublist hsub)
    have hmem := hsub.subset
    exact ⟨⟨hmem (by simp), hmem (by simp), hmem (by simp)⟩, hafter b (by simp),
      List.rel_of_pairwise_cons hrest (by simp)⟩
  · rintro ⟨⟨ha, hb, hc⟩, hab, hbc⟩
    have hpair : [a, b, c].Pairwise fun m m' => standing m < standing m' := by
      simp [hab, hbc, hab.trans hbc]
    have : Std.Antisymm fun m m' : (Node × Option Int) × Nat => standing m < standing m' :=
      ⟨fun _ _ h h' => absurd h' h.not_gt⟩
    refine List.sublist_of_subperm_of_pairwise (List.subperm_of_subset ?_ ?_) hpair
      (pairwise_ranked ms)
    · exact hpair.imp fun h heq => h.ne (congrArg standing heq)
    · simp [ha, hb, hc]

variable {g : Graph} {codeList : Id}

/-- Between two edges from one node there is, in the order of the list, an edge from another. -/
def Interleaved (g : Graph) (codeList : Id) : Prop :=
  ∃ i j k a b c, (g.linked codeList)[i]? = some a ∧ (g.linked codeList)[j]? = some b ∧
    (g.linked codeList)[k]? = some c ∧ standing (a, i) < standing (b, j) ∧
    standing (b, j) < standing (c, k) ∧ a.1.id = c.1.id ∧ b.1.id ≠ a.1.id

theorem contiguous_iff : Contiguous (·.1.id) ((g.linked codeList).mergeSort memberLe) ↔
    ¬ g.Interleaved codeList := by
  rw [← map_ranked]
  constructor
  · rintro hall ⟨i, j, k, a, b, c, ha, hb, hc, hab, hbc, hac, hne⟩
    have hsub : [(a, i), (b, j), (c, k)].Sublist (ranked (g.linked codeList)) :=
      sublist_ranked_iff.2 ⟨⟨mem_ranked.2 ha, mem_ranked.2 hb, mem_ranked.2 hc⟩, hab, hbc⟩
    exact hne (hall a b c (hsub.map Prod.fst) hac)
  · intro hnone a b c hsub hac
    by_contra hne
    obtain ⟨l, hl, heq⟩ := List.sublist_map_iff.1 hsub
    have hlength : l.length = 3 := by simpa using (congrArg List.length heq).symm
    obtain ⟨a', b', c', rfl⟩ := List.length_eq_three.1 hlength
    obtain ⟨rfl, rfl, rfl⟩ : a = a'.1 ∧ b = b'.1 ∧ c = c'.1 := by simpa using heq
    obtain ⟨⟨ha, hb, hc⟩, hab, hbc⟩ := sublist_ranked_iff.1 hl
    exact hnone ⟨_, _, _, _, _, _, mem_ranked.1 ha, mem_ranked.1 hb, mem_ranked.1 hc, hab, hbc,
      hac, hne⟩

/-! ## Listed nodes -/

/-- A node is linked to a code list by some edge. -/
def Listed (g : Graph) (codeList id : Id) : Prop := ∃ e n, g.Lists codeList e n ∧ n.id = id

theorem listed_iff {id : Id} :
    g.Listed codeList id ↔ id ∈ (g.linked codeList).map (·.1.id) := by
  rw [List.mem_map]
  constructor
  · rintro ⟨e, n, he, rfl⟩
    exact ⟨_, mem_linked.2 ⟨e, he, rfl⟩, rfl⟩
  · rintro ⟨⟨n, place⟩, hm, rfl⟩
    obtain ⟨e, he, -⟩ := mem_linked.1 hm
    exact ⟨e, n, he, rfl⟩

theorem ncard_listed : Set.ncard { id | g.Listed codeList id } =
    ((g.linked codeList).map (·.1.id)).toFinset.card := by
  rw [← Set.ncard_coe_finset]
  congr 1
  ext id
  rw [List.coe_toFinset]
  exact listed_iff

/-- The code list has as many entries as nodes, if and only if no edges are interleaved. -/
theorem length_entries_iff :
    (g.entries codeList).length = Set.ncard { id | g.Listed codeList id } ↔
      ¬ g.Interleaved codeList := by
  have hkeys : (((g.linked codeList).mergeSort memberLe).map (·.1.id)).toFinset =
      ((g.linked codeList).map (·.1.id)).toFinset :=
    List.toFinset_eq_of_perm _ _ ((List.mergeSort_perm _ _).map _)
  rw [← contiguous_iff, ← length_dropRepeats_iff, ncard_listed, ← hkeys, ← listMembers_eq]
  unfold entries
  rw [List.length_map]

/-- What an entry says comes from an edge of a node. -/
def Describes (g : Graph) (codeList id : Id) (x : CodeEntry) : Prop :=
  ∃ e n, g.Lists codeList e n ∧ n.id = id ∧ memberEntry (n, e.place) = x

/-- Entries are about the listed nodes, one about each. -/
def OneEach (g : Graph) (codeList : Id) (entries : List CodeEntry) : Prop :=
  ∃ ids : List Id, ids.Nodup ∧ (∀ id, id ∈ ids ↔ g.Listed codeList id) ∧
    List.Forall₂ (g.Describes codeList) ids entries

theorem OneEach.length_eq {entries : List CodeEntry} (h : g.OneEach codeList entries) :
    entries.length = Set.ncard { id | g.Listed codeList id } := by
  obtain ⟨ids, hnodup, hids, hall⟩ := h
  have hset : { id | g.Listed codeList id } = (ids.toFinset : Set Id) := by
    ext id
    rw [List.coe_toFinset]
    exact (hids id).symm
  rw [hset, Set.ncard_coe_finset, List.toFinset_card_of_nodup hnodup, hall.length_eq]

theorem oneEach_iff : g.OneEach codeList (g.entries codeList) ↔ ¬ g.Interleaved codeList := by
  refine ⟨fun h => length_entries_iff.1 h.length_eq, fun h => ?_⟩
  refine ⟨(g.listMembers codeList).map (·.1.id), ?_, fun id => ?_, ?_⟩
  · rw [listMembers_eq, nodup_dropRepeats_iff]
    exact contiguous_iff.2 h
  · rw [listMembers_eq, mem_keys_dropRepeats, listed_iff]
    exact ((List.mergeSort_perm _ _).map _).mem_iff
  · unfold entries
    rw [List.forall₂_map_left_iff, List.forall₂_map_right_iff, List.forall₂_same]
    intro m hm
    obtain ⟨e, he, hplace⟩ := lists_of_mem hm
    exact ⟨e, m.1, he, rfl, congrArg (fun place => memberEntry (m.1, place)) hplace⟩

/-! ## A second edge -/

/-- A node that is listed already is linked to the code list by one more edge. -/
structure LinkedAgain (g : Graph) (codeList : Id) (e : StoredEdge) (g' : Graph) : Prop where
  nodes : g'.nodes = g.nodes
  edges : g'.edges = g.edges ++ [e]
  label : e.label = EdgeLabel.usedBy
  target : g.label? e.target = some (NodeLabel.codeList codeList)
  source : g.Listed codeList e.source

theorem LinkedAgain.listed_iff {g' : Graph} {e : StoredEdge} (h : g.LinkedAgain codeList e g')
    (id : Id) : g'.Listed codeList id ↔ g.Listed codeList id := by
  have hlabel : ∀ x, g'.label? x = g.label? x := fun x => by unfold label?; rw [h.nodes]
  have hnode : ∀ x, g'.node? x = g.node? x := fun x => by unfold node?; rw [h.nodes]
  constructor
  · rintro ⟨e', n, he', rfl⟩
    have hmem := he'.edge
    rw [h.edges, List.mem_append, List.mem_singleton] at hmem
    rcases hmem with hmem | rfl
    · exact ⟨e', n, ⟨hmem, he'.label, hlabel _ ▸ he'.target, hnode _ ▸ he'.source, he'.code⟩, rfl⟩
    · rw [(node?_eq_some.1 he'.source).1]
      exact h.source
  · rintro ⟨e', n, he', rfl⟩
    refine ⟨e', n, ⟨?_, he'.label, (hlabel _).trans he'.target, (hnode _).trans he'.source,
      he'.code⟩, rfl⟩
    rw [h.edges]
    exact List.mem_append_left _ he'.edge

/-- The codes of a list are counted as often as nodes are linked to it, and an entry is given for
each of these nodes, if and only if no edges are interleaved.  One more edge from a listed node
lists nothing new, and leaves the number as it is if and only if it does not interleave. -/
theorem listed_once_iff (b : Backend) (g : Graph) (codeList : Id) :
    ∃ entries, Environment.graph.run (b.reader.codes codeList).run g = (.ok entries, g) ∧
      Environment.graph.run (b.reader.countCodes codeList).run g = (.ok entries.length, g) ∧
      (entries.length = Set.ncard { id | g.Listed codeList id } ↔ ¬ g.Interleaved codeList) ∧
      (g.OneEach codeList entries ↔ ¬ g.Interleaved codeList) ∧
      ∀ e g', g.LinkedAgain codeList e g' →
        (∀ id, g'.Listed codeList id ↔ g.Listed codeList id) ∧
        (¬ g.Interleaved codeList →
          (Environment.graph.run (b.reader.countCodes codeList).run g' =
              (.ok entries.length, g') ↔ ¬ g'.Interleaved codeList)) := by
  refine ⟨g.entries codeList, run_codes _, run_countCodes _, length_entries_iff, oneEach_iff, ?_⟩
  intro e g' h
  refine ⟨h.listed_iff, fun hnone => ?_⟩
  have hsame : Set.ncard { id | g.Listed codeList id } =
      Set.ncard { id | g'.Listed codeList id } := by
    simp only [h.listed_iff]
  rw [run_countCodes, Prod.mk.injEq, and_iff_left rfl, Except.ok.injEq, Nat.cast_inj,
    length_entries_iff.2 hnone, hsame]
  exact length_entries_iff

/-- A code list with two codes. -/
def twoPlaces : Graph where
  nodes := Table.ofList
    [("a", ⟨NodeLabel.code "list", Table.ofList [(Property.value, .str "part")]⟩),
      ("b", ⟨NodeLabel.code "list", Table.ofList [(Property.value, .str "all")]⟩),
      ("l", ⟨NodeLabel.codeList "list", .empty⟩)]
  edges :=
    [⟨⟨"e", EdgeLabel.usedBy, "a", "l"⟩, Table.ofList [(Property.order, .int 1)]⟩,
      ⟨⟨"f", EdgeLabel.usedBy, "b", "l"⟩, Table.ofList [(Property.order, .int 2)]⟩]
  supply := ⟨longerAndLonger 2, 0⟩

/-- A second edge for the first code, with the place of the first edge. -/
def earlyEdge : StoredEdge :=
  ⟨⟨"h", EdgeLabel.usedBy, "a", "l"⟩, Table.ofList [(Property.order, .int 1)]⟩

/-- The two edges of the first code are neighbours, so its repeat is dropped. -/
theorem listed_once_earlyEdge :
    let g' := { twoPlaces with edges := twoPlaces.edges ++ [earlyEdge] }
    twoPlaces.LinkedAgain "list" earlyEdge g' ∧ ¬ twoPlaces.Interleaved "list" ∧
      ¬ g'.Interleaved "list" ∧
      Environment.graph.run (Reader.countCodes ⟨.cypher⟩ "list").run g' = (.ok 2, g') ∧
      ∃ entries, Environment.graph.run (Reader.codes ⟨.cypher⟩ "list").run g' =
        (.ok entries, g') ∧ g'.OneEach "list" entries := by
  intro g'
  have hagain : twoPlaces.LinkedAgain "list" earlyEdge g' :=
    ⟨rfl, rfl, rfl, by decide +kernel, listed_iff.2 (by decide +kernel)⟩
  have hnone : ¬ twoPlaces.Interleaved "list" := by
    rw [← length_entries_iff, ncard_listed]
    cbv
  have hnone' : ¬ g'.Interleaved "list" := by
    rw [← length_entries_iff, ncard_listed]
    cbv
  obtain ⟨entries, hcodes, hcount, -, -, hlinked⟩ :=
    listed_once_iff (.cypher .standard) twoPlaces "list"
  obtain ⟨entries', hcodes', -, -, hone, -⟩ := listed_once_iff (.cypher .standard) g' "list"
  have hlength : entries.length = 2 := by
    rw [run_codes] at hcodes
    cases hcodes
    cbv
  have hsame := ((hlinked earlyEdge g' hagain).2 hnone).2 hnone'
  rw [hlength] at hsame
  exact ⟨hagain, hnone, hnone', hsame, entries', hcodes', hone.2 hnone'⟩

/-- A second edge for the first code, with a place behind the other code. -/
def lateEdge : StoredEdge :=
  ⟨⟨"h", EdgeLabel.usedBy, "a", "l"⟩, Table.ofList [(Property.order, .int 3)]⟩

/-- The first code is counted twice with its second edge. -/
theorem lateEdge_counts :
    let g' := { twoPlaces with edges := twoPlaces.edges ++ [lateEdge] }
    twoPlaces.LinkedAgain "list" lateEdge g' ∧
      Set.ncard { id | g'.Listed "list" id } = 2 ∧
      Environment.graph.run (Reader.countCodes ⟨.cypher⟩ "list").run twoPlaces =
        (.ok 2, twoPlaces) ∧
      Environment.graph.run (Reader.countCodes ⟨.cypher⟩ "list").run g' = (.ok 3, g') := by
  intro g'
  refine ⟨⟨rfl, rfl, rfl, by decide +kernel, listed_iff.2 (by decide +kernel)⟩, ?_, ?_, ?_⟩
  · rw [ncard_listed]
    decide +kernel
  · rw [run_countCodes]
    have hlength : (twoPlaces.entries "list").length = 2 := by cbv
    rw [hlength]
    rfl
  · rw [run_countCodes]
    have hlength : (g'.entries "list").length = 3 := by cbv
    rw [hlength]
    rfl

end Graph
end InstanceHierarchy
