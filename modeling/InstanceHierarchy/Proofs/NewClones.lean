import InstanceHierarchy.Proofs.Merging
import InstanceHierarchy.Proofs.Repetition
import InstanceHierarchy.Proofs.TargetHierarchy

/-!
# Which clones are made

Sources are cloned one by one, and each looks for its clone by its code in the graph that the ones
before have been cloned into.  Whether a clone is made is nevertheless told by the start: one is made
for each code of a source that no node of the hierarchy carried, and it takes its label from the
first source with that code.  Every source is linked to the first node with its code, which is the
one that was there or the one that was made.

Sources may be named twice or not be there, share codes, have none, or be clones themselves.  Only
the ids that are drawn have to be new, to the graph and among those that name the sources.
-/

namespace InstanceHierarchy
namespace Graph

variable {start g g' : Graph} {target c : String} {codeList : Id} {hasData : Bool}
  {sources done : List Id} {source : Id} {n : Node}

/-! ## The first node with a code -/

/-- The id is the smallest one of those that name nodes with the label and the code. -/
def FirstCoded (g : Graph) (target c : String) (a : Id) : Prop :=
  g.Coded target c a ∧ ∀ b, g.Coded target c b → a = b ∨ a < b

theorem FirstCoded.eq {a b : Id} (ha : g.FirstCoded target c a) (hb : g.FirstCoded target c b) :
    a = b := by
  rcases ha.2 b hb.1 with heq | hlt
  · exact heq
  · rcases hb.2 a ha.1 with heq | hgt
    · exact heq.symm
    · exact absurd (String.lt_trans hlt hgt) (String.lt_irrefl a)

theorem firstCoded_congr {a : Id} (h : ∀ x, g'.Coded target c x ↔ g.Coded target c x) :
    g'.FirstCoded target c a ↔ g.FirstCoded target c a := by
  unfold FirstCoded
  simp only [h]

theorem pairwise_idsWithCode (g : Graph) (target c : String) :
    (g.idsWithCode target c).Pairwise (· < ·) :=
  g.pairwise_nodeList.sublist ((List.filter_sublist.trans List.filter_sublist).map _)

theorem firstCoded_of_head {a : Id} {rest : List Id} (h : g.idsWithCode target c = a :: rest) :
    g.FirstCoded target c a := by
  have hascending := g.pairwise_idsWithCode target c
  refine ⟨mem_idsWithCode.1 (h ▸ List.mem_cons_self), fun b hb => ?_⟩
  rw [← mem_idsWithCode, h] at hb
  rw [h] at hascending
  exact (List.mem_cons.1 hb).imp Eq.symm fun hmem => (List.pairwise_cons.1 hascending).1 b hmem

theorem exists_firstCoded {a : Id} (h : g.Coded target c a) : ∃ a, g.FirstCoded target c a := by
  cases hids : g.idsWithCode target c with
  | nil => exact absurd h (idsWithCode_eq_nil_iff.1 hids a)
  | cons b rest => exact ⟨b, firstCoded_of_head hids⟩

/-! ## What is to be made -/

/-- No node with the label carries the code. -/
def Lacks (g : Graph) (target c : String) : Prop := ∀ a, ¬ g.Coded target c a

/-- The first stored node among the sources with a code; one without a code counts as one with the
empty code. -/
def firstSource? (g : Graph) (sources : List Id) (c : String) : Option Node :=
  (g.records sources).find? fun n => n.cloneCode = c

/-- Exactly the properties of a clone: its code, whether it has data, its code list, and the label of
the source if that has one. -/
def DescribesClone (n : Node) (c : String) (codeList : Id) (hasData : Bool) (ps : Properties) :
    Prop :=
  ∀ key, ps.get? key =
    if key = Property.code then some (.str c)
    else if key = Property.hasData then some (.bool hasData)
    else if key = Property.codeList then some (.str codeList)
    else if key = Property.label then n.properties.get? Property.label
    else none

/-- One new node carries the code, and has the properties of a clone of the source. -/
def MadeFrom (start : Graph) (target : String) (codeList : Id) (hasData : Bool) (c : String)
    (n : Node) (g : Graph) : Prop :=
  ∃ id ps, start.Future id ∧ g.nodes.get? id = some ⟨target, ps⟩ ∧
    DescribesClone n c codeList hasData ps ∧ ∀ a, g.Coded target c a ↔ a = id

/-- One node has been made for each code that a source has and that was lacking; the nodes of the
start are as they were, and there are no others. -/
structure Stock (start : Graph) (target : String) (codeList : Id) (hasData : Bool)
    (sources : List Id) (g : Graph) : Prop where
  kept : ∀ id v, start.nodes.get? id = some v → g.nodes.get? id = some v
  made : ∀ c n, start.Lacks target c → start.firstSource? sources c = some n →
    MadeFrom start target codeList hasData c n g
  only : ∀ id v, g.nodes.get? id = some v → start.nodes.get? id = some v ∨
    ∃ c, start.Lacks target c ∧ (start.firstSource? sources c).isSome ∧ g.Coded target c id

/-- Every stored source has been linked to the first node with its code, and no other edge has come
or gone. -/
structure Stocked (start : Graph) (target : String) (codeList : Id) (hasData : Bool)
    (sources : List Id) (g : Graph) : Prop extends Stock start target codeList hasData sources g where
  links : ∃ created, Joins start EdgeLabel.cloneOf (fun a s => s ∈ sources ∧
    ∃ n, start.node? s = some n ∧ g.FirstCoded target n.cloneCode a) created g

theorem firstSource?_append_of_none (h : start.node? source = none) :
    start.firstSource? (done ++ [source]) c = start.firstSource? done c := by
  unfold firstSource? records
  rw [List.filterMap_append]
  simp [h]

theorem firstSource?_append (h : start.node? source = some n) :
    start.firstSource? (done ++ [source]) c =
      (start.firstSource? done c).or (if n.cloneCode = c then some n else none) := by
  unfold firstSource? records
  rw [List.filterMap_append, List.find?_append]
  by_cases hc : n.cloneCode = c
  · simp [h, hc]
  · simp [h, hc]

theorem firstSource?_isSome (hs : source ∈ sources) (h : start.node? source = some n) :
    (start.firstSource? sources n.cloneCode).isSome := by
  unfold firstSource?
  rw [List.find?_isSome]
  exact ⟨n, List.mem_filterMap.2 ⟨source, hs, h⟩, decide_eq_true rfl⟩

/-! ## The nodes -/

/-- A node that was made stays the one for its code when a node is made for another code. -/
theorem MadeFrom.addVertex {m : Node} {v : Vertex}
    (h : MadeFrom start target codeList hasData c m g) (hfresh : g.Fresh)
    (hother : codeIn v.properties ≠ some c) :
    MadeFrom start target codeList hasData c m (g.addVertex v).2 := by
  obtain ⟨id, ps, hfuture, hps, hclone, hone⟩ := h
  have hkept := (get?_addVertex_of_not_future v (hfresh.not_future hps)).trans hps
  refine ⟨id, ps, hfuture, hkept, hclone, fun a => ?_⟩
  rw [coded_addVertex hfresh, hone]
  exact or_iff_left fun hnew => hother hnew.2.2

/-- A node is made for a code that no node carries. -/
theorem madeFrom_addVertex (hfresh : g.Fresh) (hgrows : start.Grows g)
    (hnew : g.Lacks target n.cloneCode) :
    MadeFrom start target codeList hasData n.cloneCode n
      (g.addVertex ⟨target, cloneProperties n n.cloneCode codeList hasData⟩).2 := by
  refine ⟨_, _, hgrows.future (future_addVertex g _), by rw [get?_addVertex, if_pos rfl],
    fun key => get?_cloneProperties n _ codeList hasData key, fun a => ?_⟩
  rw [coded_addVertex hfresh, codeIn_cloneProperties]
  simp [hnew a, eq_comm]

namespace Stock

/-- The codes of the sources are those that nodes carry and that were lacking. -/
theorem isSome_of_coded (h : Stock start target codeList hasData done g)
    (hlacks : start.Lacks target c) {a : Id} (hc : g.Coded target c a) :
    (start.firstSource? done c).isSome := by
  have ⟨ps, hps, hcode⟩ := hc
  rcases h.only a _ hps with hold | ⟨d, -, hsome, hd⟩
  · exact absurd ⟨ps, hold, hcode⟩ (hlacks a)
  · exact (hc.functional hd).2 ▸ hsome

theorem coded_of_coded (h : Stock start target codeList hasData done g) {a : Id}
    (hc : start.Coded target c a) : g.Coded target c a := by
  obtain ⟨ps, hps, hcode⟩ := hc
  exact ⟨ps, h.kept a _ hps, hcode⟩

/-- The code of every source is carried by a node. -/
theorem represented (h : Stock start target codeList hasData done g)
    (hs : source ∈ done) (hn : start.node? source = some n) :
    ∃ a, g.Coded target n.cloneCode a := by
  by_cases hlacks : start.Lacks target n.cloneCode
  · obtain ⟨m, hm⟩ := Option.isSome_iff_exists.1 (firstSource?_isSome hs hn)
    obtain ⟨id, -, -, -, -, hone⟩ := h.made _ m hlacks hm
    exact ⟨id, (hone id).2 rfl⟩
  · obtain ⟨a, ha⟩ := not_forall.1 hlacks
    exact ⟨a, h.coded_of_coded (not_not.1 ha)⟩

/-- What is stored under an id that was not going to be drawn was stored there at the start. -/
theorem node?_eq (h : Stock start target codeList hasData done g) (hs : ¬ start.Future source) :
    g.node? source = start.node? source := by
  refine congrArg (Option.map _) (Option.ext fun v => ⟨fun hv => ?_, h.kept source v⟩)
  refine (h.only source v hv).resolve_right ?_
  rintro ⟨c, hlacks, hsome, hc⟩
  obtain ⟨m, hm⟩ := Option.isSome_iff_exists.1 hsome
  obtain ⟨id, -, hfuture, -, -, hone⟩ := h.made c m hlacks hm
  exact hs ((hone source).1 hc ▸ hfuture)

theorem of_nodes (h : Stock start target codeList hasData done g) (hnodes : g'.nodes = g.nodes) :
    Stock start target codeList hasData done g' := by
  have hcoded : g'.Coded = g.Coded := by
    unfold Coded
    rw [hnodes]
  refine ⟨?_, ?_, ?_⟩
  · rw [hnodes]
    exact h.kept
  · unfold MadeFrom
    rw [hnodes, hcoded]
    exact h.made
  · rw [hnodes, hcoded]
    exact h.only

/-- Nothing is made for one more source that is not there. -/
theorem skip (h : Stock start target codeList hasData done g) (hn : start.node? source = none) :
    Stock start target codeList hasData (done ++ [source]) g := by
  have hsame : start.firstSource? (done ++ [source]) = start.firstSource? done :=
    funext fun c => firstSource?_append_of_none hn
  refine { h with made := ?_, only := ?_ }
  · rw [hsame]
    exact h.made
  · rw [hsame]
    exact h.only

/-- Nothing is made for one more source with a code that a node carries. -/
theorem reuse (h : Stock start target codeList hasData done g) (hn : start.node? source = some n)
    {clone : Id} (hclone : g.Coded target n.cloneCode clone) :
    Stock start target codeList hasData (done ++ [source]) g := by
  -- if the code was lacking, there has been a source with it before
  have hsame : ∀ c, start.Lacks target c →
      start.firstSource? (done ++ [source]) c = start.firstSource? done c := by
    intro c hlacks
    rw [firstSource?_append hn]
    by_cases hc : n.cloneCode = c
    · subst hc
      obtain ⟨m, hm⟩ := Option.isSome_iff_exists.1 (h.isSome_of_coded hlacks hclone)
      rw [hm, Option.some_or]
    · rw [if_neg hc, Option.or_none]
  refine { h with made := ?_, only := ?_ }
  · intro c m hlacks hm
    exact h.made c m hlacks (hsame c hlacks ▸ hm)
  · intro id v hv
    refine (h.only id v hv).imp_right ?_
    rintro ⟨c, hlacks, hsome, hc⟩
    exact ⟨c, hlacks, (hsame c hlacks).symm ▸ hsome, hc⟩

/-- A node is made for one more source with a code that no node carries. -/
theorem add (h : Stock start target codeList hasData done g) (hfresh : g.Fresh)
    (hgrows : start.Grows g) (hn : start.node? source = some n)
    (hnew : g.Lacks target n.cloneCode) :
    Stock start target codeList hasData (done ++ [source])
      (g.addVertex ⟨target, cloneProperties n n.cloneCode codeList hasData⟩).2 := by
  have hcode := codeIn_cloneProperties n n.cloneCode codeList hasData
  have hlacking : start.Lacks target n.cloneCode := fun a ha => hnew a (h.coded_of_coded ha)
  refine ⟨fun id v hv => ?_, fun c m hlacks hm => ?_, fun id v hv => ?_⟩
  · have hold := h.kept id v hv
    exact (get?_addVertex_of_not_future _ (hfresh.not_future hold)).trans hold
  · rw [firstSource?_append hn] at hm
    rcases Option.or_eq_some_iff.1 hm with hdone | ⟨-, hlast⟩
    · have hmade := h.made c m hlacks hdone
      refine hmade.addVertex hfresh fun heq => ?_
      -- a node carries this code, so it is not the one that was lacking till now
      obtain ⟨id, -, -, -, -, hone⟩ := hmade
      rw [hcode] at heq
      exact hnew id (Option.some.inj heq ▸ (hone id).2 rfl)
    · obtain ⟨rfl, hsame⟩ := Option.ite_none_right_eq_some.1 hlast
      obtain rfl := Option.some.inj hsame
      exact madeFrom_addVertex hfresh hgrows hnew
  · rw [get?_addVertex] at hv
    split at hv
    · rename_i hid
      have hmem : source ∈ done ++ [source] := List.mem_append_right _ List.mem_cons_self
      exact Or.inr ⟨n.cloneCode, hlacking, firstSource?_isSome hmem hn,
        (coded_addVertex hfresh).2 (Or.inr ⟨hid, rfl, hcode⟩)⟩
    · refine (h.only id v hv).imp_right ?_
      rintro ⟨c, hlacks, hsome, hc⟩
      refine ⟨c, hlacks, ?_, (coded_addVertex hfresh).2 (Or.inl hc)⟩
      rw [firstSource?_append hn, Option.isSome_or, hsome, Bool.true_or]

end Stock

/-! ## The links -/

namespace Stocked

theorem refl (start : Graph) (target : String) (codeList : Id) (hasData : Bool) :
    Stocked start target codeList hasData [] start where
  kept _ _ hv := hv
  made _ _ _ hm := by cases hm
  only _ _ hv := Or.inl hv
  links := ⟨[], (Joins.refl start EdgeLabel.cloneOf).congr fun _ _ => by simp⟩

/-- One more source is linked to the first node with its code, which does not come before those that
the other sources are linked to. -/
theorem link (h : Stocked start target codeList hasData done g)
    (hstock : Stock start target codeList hasData (done ++ [source]) g')
    (hn : start.node? source = some n) (hedges : g'.edges = g.edges)
    (hfirst : ∀ s ∈ done, ∀ m, start.node? s = some m → ∀ a,
      g'.FirstCoded target m.cloneCode a ↔ g.FirstCoded target m.cloneCode a)
    {clone : Id} (hclone : g'.FirstCoded target n.cloneCode clone) :
    Stocked start target codeList hasData (done ++ [source])
      (g'.mergeEdge EdgeLabel.cloneOf clone source).2 := by
  obtain ⟨created, hjoins⟩ := h.links
  have hmerged := (hjoins.of_edges hedges).mergeEdge clone source
  refine ⟨hstock.of_nodes (nodes_mergeEdge g' _ _ _), _, hmerged.congr fun a s => ?_⟩
  simp only [firstCoded_congr fun _ => coded_mergeEdge, List.mem_append, List.mem_singleton]
  constructor
  · rintro (⟨hs, m, hm, ha⟩ | ⟨rfl, rfl⟩)
    · exact ⟨Or.inl hs, m, hm, (hfirst s hs m hm a).2 ha⟩
    · exact ⟨Or.inr rfl, n, hn, hclone⟩
  · rintro ⟨hs | rfl, m, hm, ha⟩
    · exact Or.inl ⟨hs, m, hm, (hfirst s hs m hm a).1 ha⟩
    · obtain rfl := Option.some.inj (hn.symm.trans hm)
      exact Or.inr ⟨ha.eq hclone, rfl⟩

/-- One more source is cloned. -/
theorem cloneNode (h : Stocked start target codeList hasData done g) (hfresh : g.Fresh)
    (hgrows : start.Grows g) (hs : ¬ start.Future source) :
    Stocked start target codeList hasData (done ++ [source])
      (g.cloneNode source target codeList hasData) := by
  have hnode := h.node?_eq hs
  rcases g.cloneNode_cases source target codeList hasData with
    ⟨hn, heq⟩ | ⟨n, hn, ⟨clone, rest, hids, heq⟩ | ⟨v, rfl, hids, heq⟩⟩
  · rw [hnode] at hn
    obtain ⟨created, hjoins⟩ := h.links
    rw [heq]
    refine ⟨h.toStock.skip hn, created, hjoins.congr fun a s => ?_⟩
    simp only [List.mem_append, List.mem_singleton]
    refine ⟨fun hasked => ⟨Or.inl hasked.1, hasked.2⟩, ?_⟩
    rintro ⟨hs | rfl, m, hm, ha⟩
    · exact ⟨hs, m, hm, ha⟩
    · rw [hn] at hm
      cases hm
  · have hclone := firstCoded_of_head hids
    rw [hnode] at hn
    rw [heq]
    exact h.link (h.toStock.reuse hn hclone.1) hn rfl (fun _ _ _ _ _ => Iff.rfl) hclone
  · have hnew : g.Lacks target n.cloneCode := idsWithCode_eq_nil_iff.1 hids
    have hcode := codeIn_cloneProperties n n.cloneCode codeList hasData
    rw [hnode] at hn
    rw [heq]
    refine h.link (h.toStock.add hfresh hgrows hn hnew) hn rfl (fun s hs m hm a => ?_) ⟨?_, ?_⟩
    · -- the code of a source that has been cloned is not lacking
      refine firstCoded_congr fun x => (coded_addVertex hfresh).trans (or_iff_left ?_)
      rintro ⟨-, -, heq⟩
      obtain ⟨b, hb⟩ := h.toStock.represented hs hm
      rw [hcode] at heq
      exact hnew b (Option.some.inj heq ▸ hb)
    · exact (coded_addVertex hfresh).2 (Or.inr ⟨rfl, rfl, hcode⟩)
    · intro b hb
      rcases (coded_addVertex hfresh).1 hb with hb | ⟨hb, -⟩
      · exact absurd hb (hnew b)
      · exact Or.inl hb

theorem cloneNodes (h : Stocked start target codeList hasData done g) (hfresh : g.Fresh)
    (hgrows : start.Grows g) (hsources : ∀ s ∈ sources, ¬ start.Future s) :
    Stocked start target codeList hasData (done ++ sources)
      (g.cloneNodes sources target codeList hasData) := by
  induction sources generalizing done g with
  | nil => exact (List.append_nil done).symm ▸ h
  | cons first rest ih =>
      obtain ⟨hfresh', hgrows'⟩ := fresh_cloneNode target codeList hasData hfresh first
      have hone := h.cloneNode hfresh hgrows (hsources first List.mem_cons_self)
      rw [cloneNodes_cons, List.append_cons]
      exact ih hone hfresh' (hgrows.trans hgrows') fun s hs =>
        hsources s (List.mem_cons_of_mem _ hs)

end Stocked

/-- What cloning some sources has to come to: the clones that were lacking are made, and every stored
source is linked to the first node with its code. -/
structure Supplied (start : Graph) (target : String) (codeList : Id) (hasData : Bool)
    (sources : List Id) (g : Graph) : Prop
    extends Stocked start target codeList hasData sources g where
  linked : ∀ s ∈ sources, ∀ n, start.node? s = some n →
    ∃ a, g.FirstCoded target n.cloneCode a ∧ g.Joined EdgeLabel.cloneOf a s

theorem supplied_cloneNodes (target : String) (codeList : Id) (hasData : Bool) (hfresh : g.Fresh)
    (hsources : ∀ s ∈ sources, ¬ g.Future s) :
    Supplied g target codeList hasData sources (g.cloneNodes sources target codeList hasData) := by
  have h := (Stocked.refl g target codeList hasData).cloneNodes hfresh (.of_eq rfl) hsources
  rw [List.nil_append] at h
  refine ⟨h, fun s hs n hn => ?_⟩
  obtain ⟨b, hb⟩ := h.toStock.represented hs hn
  obtain ⟨a, ha⟩ := exists_firstCoded hb
  obtain ⟨created, hjoins⟩ := h.links
  exact ⟨a, ha, hjoins.joined.2 (Or.inr ⟨hs, n, hn, ha⟩)⟩

/-- Cloning a code list or some sources makes one clone for each code that is lacking, links every
stored source to the first node with its code, and does nothing else. -/
theorem cloning_exact (g : Graph) (key : HierarchyKey) (codeList : Id) (ids : List Id)
    (hasData : Bool) (hfresh : g.Fresh) (hids : ∀ id ∈ ids, ¬ g.Future id) :
    Supplied g (NodeLabel.hierarchy key) codeList false
        (g.idsWithLabel (NodeLabel.generic codeList)) (g.mutate (.cloneList key codeList)).2 ∧
      Supplied g (NodeLabel.hierarchy key) codeList hasData ids
        (g.mutate (.cloneSources key codeList ids hasData)).2 := by
  refine ⟨supplied_cloneNodes _ codeList false hfresh fun id hid => ?_,
    supplied_cloneNodes _ codeList hasData hfresh hids⟩
  obtain ⟨ps, hps⟩ := label?_eq_some_iff.1 (mem_idsWithLabel.1 hid)
  exact hfresh.not_future hps

/-- Two sources with one code, one without a code, and one with a code that two nodes of a hierarchy
carry, of which the second one is linked to it. -/
def assorted : Graph where
  nodes := Table.ofList
    [("p", ⟨NodeLabel.hierarchy ⟨"i", "x"⟩, Table.ofList [(Property.code, .str "part")]⟩),
      ("q", ⟨NodeLabel.hierarchy ⟨"i", "x"⟩, Table.ofList [(Property.code, .str "part")]⟩),
      ("s", ⟨NodeLabel.generic "list",
        Table.ofList [(Property.code, .str "all"), (Property.label, .str "All")]⟩),
      ("t", ⟨NodeLabel.generic "list", Table.ofList [(Property.code, .str "all")]⟩),
      ("u", ⟨NodeLabel.generic "list", .empty⟩),
      ("v", ⟨NodeLabel.generic "list", Table.ofList [(Property.code, .str "part")]⟩)]
  edges := [⟨⟨"e", EdgeLabel.cloneOf, "q", "v"⟩, .empty⟩]
  supply := ⟨longerAndLonger 2, 0⟩

theorem cloning_exact_assorted :
    Supplied assorted (NodeLabel.hierarchy ⟨"i", "x"⟩) "list" false
        (assorted.idsWithLabel (NodeLabel.generic "list"))
        (assorted.mutate (.cloneList ⟨"i", "x"⟩ "list")).2 ∧
      Supplied assorted (NodeLabel.hierarchy ⟨"i", "x"⟩) "list" true ["t", "z", "s", "v", "u", "t"]
        (assorted.mutate (.cloneSources ⟨"i", "x"⟩ "list" ["t", "z", "s", "v", "u", "t"] true)).2 :=
  cloning_exact assorted ⟨"i", "x"⟩ "list" _ true
    (fresh_of_short rfl (by decide +kernel) (by decide +kernel)) fun id hid =>
      not_future_of_short rfl (by revert id; decide +kernel)

/-- The two sources share a clone, and the other link to the last source is kept. -/
example : ((assorted.mutate
      (.cloneSources ⟨"i", "x"⟩ "list" ["t", "z", "s", "v", "u", "t"] true)).2.edges.map
        fun e => (e.source, e.target)) =
    [("q", "v"), ("nn", "t"), ("nn", "s"), ("p", "v"), ("nnnnnn", "u")] := by decide +kernel

end Graph
end InstanceHierarchy
