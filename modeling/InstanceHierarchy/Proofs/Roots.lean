import InstanceHierarchy.Proofs.Reading
import Mathlib.Data.Fintype.Card

/-!
# The root of a hierarchy

In a code list without cycles every chain of parent edges that goes on as long as it can ends at a
node without a parent.  Where only one node has none, all chains end there.  Relevant codes have
relevant parents, so a hierarchy that is built from such a code list has the same root, whatever is
relevant, and it has no root only when it is empty.

Nothing is said of code lists with several roots: their hierarchies may have one root or several.
-/

namespace InstanceHierarchy

open Relation

/-! ## Chains to the top -/

/-- Where no way branches, a chain with as many edges as lead to the top, or more, ends there. -/
theorem Steps.eq_top {α : Type*} {r : α → α → Prop} {a top x : α}
    (hone : ∀ b c c', r b c → r b c' → c = c') (htop : ∀ b, ¬ r top b) {m n : Nat}
    (h : Steps r m a top) (hmn : m ≤ n) (hx : Steps r n a x) : x = top := by
  have huniq : ∀ {k : Nat} {b c : α}, Steps r k a b → Steps r k a c → b = c := by
    intro k
    induction k with
    | zero => exact fun hb hc => hb.symm.trans hc
    | succ k ih =>
        rintro b c ⟨y, hy, hyb⟩ ⟨z, hz, hzc⟩
        obtain rfl := ih hy hz
        exact hone y b c hyb hzc
  obtain ⟨k, rfl⟩ := Nat.exists_eq_add_of_le hmn
  -- by induction on the number of edges beyond the top, of which there are none
  induction k generalizing x with
  | zero => exact huniq hx h
  | succ k ih =>
      obtain ⟨y, hy, hyx⟩ := hx
      obtain rfl := ih (Nat.le_add_right m k) hy
      exact absurd hyx (htop x)

/-- Where no way branches, a list of all that is above something, nearer ones first, has the top at
its end. -/
theorem getLast?_eq_top {r : String → String → Prop} {c top : String} {names : List String}
    (hone : ∀ b d d', r b d → r b d' → d = d') (htop : ∀ b, ¬ r top b)
    (hnames : ∀ d, d ∈ names → TransGen r c d) (hmem : top ∈ names)
    (hascend : names.Pairwise fun a b => distance r c a ≤ distance r c b) :
    names.getLast? = some top := by
  have hlast : names.getLast? = some (names.getLast (List.ne_nil_of_mem hmem)) :=
    List.getLast?_eq_some_getLast _
  generalize names.getLast (List.ne_nil_of_mem hmem) = last at hlast
  obtain ⟨before, rfl⟩ := List.getLast?_eq_some_iff.1 hlast
  have hle : distance r c top ≤ distance r c last := by
    rcases List.mem_append.1 hmem with hmem | hmem
    · exact (List.pairwise_append.1 hascend).2.2 top hmem last List.mem_cons_self
    · rw [List.mem_singleton.1 hmem]
  have hsteps := (steps_distance (hnames top hmem)).2
  have hsteps' := (steps_distance (hnames last (List.mem_append_right _ List.mem_cons_self))).2
  rw [hlast, hsteps.eq_top hone htop hle hsteps']

namespace Graph

variable {g : Graph} {label top : String}

/-- The nodes with a label form no cycle, and one code is that of all of them without a parent. -/
structure Rooted (g : Graph) (label top : String) : Prop where
  acyclic : ∀ s, g.label? s = some label → ¬ TransGen g.Up s s
  parentless : ∃ s, g.Coded label top s ∧ ∀ p, ¬ g.Up s p
  only : ∀ s, g.label? s = some label → (∀ p, ¬ g.Up s p) → g.Coded label top s

/-- No node with the label has two parents. -/
def SingleParents (g : Graph) (label : String) : Prop :=
  ∀ s p p', g.label? s = some label → g.Up s p → g.Up s p' → p = p'

namespace Rooted

variable (h : g.Rooted label top) (hcodes : g.DistinctCodes label)

include h hcodes

theorem not_codeParent (p : String) : ¬ g.CodeParent label top p := by
  intro hp
  obtain ⟨s, t, hs, -, hup⟩ := hcodes.codeParent_iff.1 hp
  obtain ⟨s', hs', hnone⟩ := h.parentless
  obtain rfl := hcodes.unique top s s' hs hs'
  exact hnone t hup

/-- From every code of the code list a chain of parent edges leads to the top. -/
theorem reaches (hinside : ∀ s t, g.Up s t → g.label? s = some label → g.label? t = some label)
    {c : String} {s : Id} (hc : g.Coded label c s) : ReflTransGen (g.CodeParent label) c top := by
  have hfinite : Finite { s // g.label? s = some label } :=
    ((g.idsWithLabel label).finite_toSet.subset fun _ hs => mem_idsWithLabel.2 hs).to_subtype
  let above (a b : { s // g.label? s = some label }) : Prop := TransGen g.Up b.1 a.1
  have : IsTrans _ above := ⟨fun _ _ _ hab hbc => hbc.trans hab⟩
  have : Std.Irrefl above := ⟨fun a => h.acyclic a.1 a.2⟩
  have hwf : WellFounded above := Finite.wellFounded_of_trans_of_irrefl above
  -- there are finitely many nodes and no cycles, so going up comes to an end
  have key : ∀ (a : { s // g.label? s = some label }) (c : String), g.Coded label c a.1 →
      ReflTransGen (g.CodeParent label) c top := by
    intro a
    induction a using hwf.induction with
    | h a ih =>
        intro c hc
        by_cases hparent : ∃ p, g.Up a.1 p
        · obtain ⟨p, hup⟩ := hparent
          have hp := hinside a.1 p hup a.2
          obtain ⟨d, hd⟩ := hcodes.coded p hp
          exact .head (hcodes.codeParent_iff.2 ⟨a.1, p, hc, hd, hup⟩)
            (ih ⟨p, hp⟩ (TransGen.single hup) d hd)
        · have htop := h.only a.1 a.2 fun p hup => hparent ⟨p, hup⟩
          rw [(hc.functional htop).2]
  exact key ⟨s, hc.label⟩ c hc

/-- A code of the code list without a parent is the top. -/
theorem eq_top (hinside : ∀ s t, g.Up s t → g.label? s = some label → g.label? t = some label)
    {c : String} {s : Id} (hc : g.Coded label c s) (hnone : ∀ p, ¬ g.CodeParent label c p) :
    c = top := by
  rcases (h.reaches hcodes hinside hc).cases_head with heq | ⟨p, hp, -⟩
  · exact heq
  · exact absurd hp (hnone p)

end Rooted

theorem DistinctCodes.singleParents (hcodes : g.DistinctCodes label) (h : g.SingleParents label)
    {c p p' : String} (hp : g.CodeParent label c p) (hp' : g.CodeParent label c p') : p = p' := by
  obtain ⟨s, t, hs, ht, hup⟩ := hcodes.codeParent_iff.1 hp
  obtain ⟨s', t', hs', ht', hup'⟩ := hcodes.codeParent_iff.1 hp'
  obtain rfl := hcodes.unique c s s' hs hs'
  obtain rfl := h s t t' hs.label hup hup'
  exact (ht.functional ht').2

/-! ## Reading the root -/

/-- The nodes of a hierarchy that have no parent. -/
def rootNodes (g : Graph) (label : String) : List Node :=
  (g.nodesWithLabel label).filter fun n => (g.targets n.id EdgeLabel.hasParent).isEmpty

variable {key : HierarchyKey} {L : Set String} (r : Reader)

theorem run_roots : Environment.graph.run (r.roots key).run g =
    (.ok (g.rootNodes (NodeLabel.hierarchy key)), g) :=
  run_ask r rfl

theorem run_exists_of_none (h : g.rootNodes (NodeLabel.hierarchy key) = []) :
    Environment.graph.run (r.exists? key).run g = (.ok false, g) := by
  refine (run_bind_ok _ (run_roots r)).trans ?_
  rw [h]
  rfl

theorem run_exists {n : Node} (h : g.rootNodes (NodeLabel.hierarchy key) = [n]) :
    Environment.graph.run (r.exists? key).run g = (.ok true, g) := by
  refine (run_bind_ok _ (run_roots r)).trans ?_
  rw [h]
  rfl

theorem run_codeList_of_none (h : g.rootNodes (NodeLabel.hierarchy key) = []) :
    Environment.graph.run (r.codeList key).run g = (.error .notFound, g) := by
  refine (run_bind_ok _ (run_roots r)).trans ?_
  rw [h]
  rfl

theorem run_codeList {n : Node} {codeList : Id}
    (h : g.rootNodes (NodeLabel.hierarchy key) = [n])
    (hlist : n.text? Property.codeList = some codeList) :
    Environment.graph.run (r.codeList key).run g = (.ok codeList, g) := by
  refine (run_bind_ok _ (run_roots r)).trans ?_
  rw [h]
  refine (run_bind_ok _ (run_liftExcept (.ok n))).trans ?_
  rw [hlist]
  rfl

theorem run_root_of_none (h : g.rootNodes (NodeLabel.hierarchy key) = []) :
    Environment.graph.run (r.root key).run g = (.error .notFound, g) := by
  refine (run_bind_ok _ (run_roots r)).trans ?_
  rw [h]
  rfl

/-- The root is read with its children, as other nodes are, but without ancestors. -/
theorem run_root (ht : Tidy L (NodeLabel.hierarchy key) g)
    (htitled : g.Titled (NodeLabel.hierarchy key)) {n : Node}
    (h : g.rootNodes (NodeLabel.hierarchy key) = [n]) :
    Environment.graph.run (r.root key).run g =
      (.ok { g.viewOf (NodeLabel.hierarchy key) n with breadcrumbs := [] }, g) := by
  have hn : n ∈ g.nodesWithLabel (NodeLabel.hierarchy key) :=
    List.mem_of_mem_filter (h ▸ List.mem_cons_self : n ∈ g.rootNodes (NodeLabel.hierarchy key))
  have hchildren := run_askElements r (g := g) (q := .children key n.cloneCode) rfl
    fun m hm => ofNode_of_tidy ht htitled ((childrenOf_perm ht (ht.coded_node hn)).2 m hm)
  have hshown : Environment.graph.run (liftExcept (Element.ofNode n) : StoreM Element).run g =
      (.ok (.shown n), g) := by
    rw [ofNode_of_tidy ht htitled hn]
    rfl
  refine (run_bind_ok _ (run_roots r)).trans ?_
  rw [h]
  refine (run_bind_ok _ (run_liftExcept (.ok n))).trans ?_
  refine (run_bind_ok _ hshown).trans ?_
  exact run_bind_ok _ hchildren

/-! ## The root that a build leaves -/

/-- What a reader finds of the root when one code is at the top of the hierarchy. -/
structure RootOutcome (g g' : Graph) (key : HierarchyKey) (codeList : Id) (top : String)
    (r : Reader) : Prop where
  present : Environment.graph.run (r.exists? key).run g' = (.ok true, g')
  root : ∃ view, Environment.graph.run (r.root key).run g' = (.ok view, g') ∧
    view.id = top ∧ view.breadcrumbs = []
  list : Environment.graph.run (r.codeList key).run g' = (.ok codeList, g')
  /-- The root is above every other clone, and where no code has two parents it comes last. -/
  above : ∀ c id, g'.Coded (NodeLabel.hierarchy key) c id → c ≠ top → ∃ view,
    Environment.graph.run (r.element key c).run g' = (.ok view, g') ∧
      top ∈ view.breadcrumbs.map (·.id) ∧
      (g.SingleParents (NodeLabel.generic codeList) →
        (view.breadcrumbs.map (·.id)).getLast? = some top)

/-- What a reader finds of the root of an empty hierarchy. -/
structure RootMissing (g' : Graph) (key : HierarchyKey) (r : Reader) : Prop where
  absent : Environment.graph.run (r.exists? key).run g' = (.ok false, g')
  root : Environment.graph.run (r.root key).run g' = (.error .notFound, g')
  list : Environment.graph.run (r.codeList key).run g' = (.error .notFound, g')

section Outcome

variable {P : Plan} {placing : Bool} {g' : Graph}
  (hready : P.Ready {NodeLabel.hierarchy key})
  (h : Stage {NodeLabel.hierarchy key} (NodeLabel.hierarchy key) P.start
    (P.outcome (P.start.dataCodes (NodeLabel.data key)) placing) g')

include hready h

/-- A clone has a parent when its code has one: relevant codes have relevant parents. -/
theorem Stage.targets_eq_nil_iff {n : Node}
    (hn : n ∈ g'.nodesWithLabel (NodeLabel.hierarchy key)) :
    g'.targets n.id EdgeLabel.hasParent = [] ↔
      ∀ p, ¬ P.start.CodeParent (NodeLabel.generic P.codeList) n.cloneCode p := by
  have ht := h.sound.tidy _ rfl
  have hc := ht.coded_node hn
  rw [List.eq_nil_iff_forall_not_mem]
  constructor
  · intro hnone p hp
    have hrelevant := (h.relevant_iff hready).1 ⟨n.id, hc⟩
    obtain ⟨a, b, ha, -, hup⟩ := (h.shows.parent n.cloneCode p).1
      ((Plan.parent_outcome hready).2 ⟨hp, hrelevant, hrelevant.parent hp⟩)
    obtain rfl := ht.unique _ a n.id ha hc
    exact hnone b (mem_targets.2 hup)
  · intro hnone b hb
    have hup : g'.Up n.id b := mem_targets.1 hb
    rcases ht.outOf _ n.id b hup hc.label with ⟨-, hlabel⟩ | ⟨hclone, -⟩
    · obtain ⟨p, hp⟩ := ht.exists_code hlabel
      exact hnone p ((Plan.parent_outcome hready).1
        ((h.shows.parent n.cloneCode p).2 ⟨n.id, b, hc, hp, hup⟩)).1
    · exact absurd hclone (by decide)

/-- In a hierarchy that is not empty the clone for the top, and no other one, has no parent. -/
theorem Stage.rootNodes_eq (hinside : ∀ s t, P.start.Up s t →
      P.start.label? s = some (NodeLabel.generic P.codeList) →
      P.start.label? t = some (NodeLabel.generic P.codeList))
    (hrooted : P.start.Rooted (NodeLabel.generic P.codeList) top) {c : String}
    (hc : P.start.Relevant (NodeLabel.generic P.codeList) (P.start.dataCodes (NodeLabel.data key))
      c) :
    ∃ n ∈ g'.nodesWithLabel (NodeLabel.hierarchy key),
      n.cloneCode = top ∧ g'.rootNodes (NodeLabel.hierarchy key) = [n] := by
  have ht := h.sound.tidy _ rfl
  obtain ⟨m, hm, rfl⟩ := hc.source
  have hchain := hrooted.reaches hready.distinct hinside
    ((hready.distinct.cloneCode_iff hm).1 rfl)
  obtain ⟨k, hsteps⟩ := reflTransGen_iff_steps.1 hchain
  obtain ⟨id, hid⟩ := (h.relevant_iff hready).2 (hc.steps hsteps)
  obtain ⟨n, hn, rfl, hcode⟩ := ht.distinct.coded_iff.1 hid
  refine ⟨n, hn, hcode, eq_singleton_of_nodup ?_ ?_ ?_⟩
  · exact (g'.nodup_idsWithLabel _).of_map.sublist List.filter_sublist
  · refine List.mem_filter.2 ⟨hn, List.isEmpty_iff.2 ((h.targets_eq_nil_iff hready hn).2 ?_)⟩
    exact hcode ▸ hrooted.not_codeParent hready.distinct
  · intro a ha
    obtain ⟨ha, hempty⟩ := List.mem_filter.1 ha
    have hnone := (h.targets_eq_nil_iff hready ha).1 (List.isEmpty_iff.1 hempty)
    -- the code of a clone is that of a generic node
    obtain ⟨s, hs, hsource⟩ := ((h.relevant_iff hready).1 ⟨a.id, ht.coded_node ha⟩).source
    have htop := hrooted.eq_top hready.distinct hinside
      ((hready.distinct.cloneCode_iff hs).1 hsource) hnone
    have hcoded := ht.coded_node ha
    rw [htop] at hcoded
    exact nodesWithLabel_inj ha hn (ht.unique top a.id n.id hcoded hid)

theorem Stage.rootOutcome (r : Reader)
    (htitled : P.start.Titled (NodeLabel.generic P.codeList))
    (hinside : ∀ s t, P.start.Up s t → P.start.label? s = some (NodeLabel.generic P.codeList) →
      P.start.label? t = some (NodeLabel.generic P.codeList))
    (hrooted : P.start.Rooted (NodeLabel.generic P.codeList) top) {c : String}
    (hc : P.start.Relevant (NodeLabel.generic P.codeList) (P.start.dataCodes (NodeLabel.data key))
      c) :
    RootOutcome P.start g' key P.codeList top r := by
  have ht := h.sound.tidy _ rfl
  have htitled' := h.titled hready htitled
  obtain ⟨n, hn, htop, hroots⟩ := h.rootNodes_eq hready hinside hrooted hc
  obtain ⟨-, hlist, -⟩ := Plan.properties_outcome hready (h.properties_clone hn)
  constructor
  · exact run_exists r hroots
  · exact ⟨_, run_root r ht htitled' hroots, htop, rfl⟩
  · refine run_codeList r hroots ?_
    unfold Node.text?
    rw [hlist]
    rfl
  · intro c id hc hne
    obtain ⟨m, hm, -, rfl⟩ := ht.distinct.coded_iff.1 hc
    have hview := h.viewOutcome hready htitled hm
    obtain ⟨s, hs, hsource⟩ := ((h.relevant_iff hready).1 ⟨id, hc⟩).source
    have hchain := hrooted.reaches hready.distinct hinside
      ((hready.distinct.cloneCode_iff hs).1 hsource)
    have hmem := (hview.breadcrumbs.exactly top).2
      ((reflTransGen_iff_eq_or_transGen.1 hchain).resolve_left fun heq => hne heq.symm)
    refine ⟨_, run_element r ht htitled' hm, hmem, fun hsingle => ?_⟩
    have hone : ∀ b d d', P.start.CodeParent (NodeLabel.generic P.codeList) b d →
        P.start.CodeParent (NodeLabel.generic P.codeList) b d' → d = d' :=
      fun _ _ _ hp hp' => hready.distinct.singleParents hsingle hp hp'
    exact getLast?_eq_top hone (hrooted.not_codeParent hready.distinct)
      (fun d => (hview.breadcrumbs.exactly d).1) hmem (List.pairwise_map.2 hview.nearestFirst)

theorem Stage.rootMissing (r : Reader) (hnone : ∀ c, ¬ P.start.Relevant
      (NodeLabel.generic P.codeList) (P.start.dataCodes (NodeLabel.data key)) c) :
    RootMissing g' key r := by
  have hroots : g'.rootNodes (NodeLabel.hierarchy key) = [] := by
    refine List.eq_nil_iff_forall_not_mem.2 fun n hn => ?_
    have hcoded := (h.sound.tidy _ rfl).coded_node (List.mem_of_mem_filter hn)
    exact hnone n.cloneCode ((h.relevant_iff hready).1 ⟨n.id, hcoded⟩)
  exact ⟨run_exists_of_none r hroots, run_root_of_none r hroots, run_codeList_of_none r hroots⟩

end Outcome

/-- After a build, with either kind of backend, the hierarchy has the root of its code list if any
data code is in the list, and no root otherwise. -/
theorem build_rooted (b : Backend) (placing : Bool) (key : HierarchyKey) (codeList : Id)
    (g : Graph) (r : Reader) (top : String) (hfresh : g.Fresh)
    (hcodes : g.DistinctCodes (NodeLabel.generic codeList))
    (htitled : g.Titled (NodeLabel.generic codeList))
    (hinside : ∀ s t, g.Up s t → g.label? s = some (NodeLabel.generic codeList) →
      g.label? t = some (NodeLabel.generic codeList))
    (hrooted : g.Rooted (NodeLabel.generic codeList) top)
    (hfree : ∀ id, g.label? id ≠ some (NodeLabel.hierarchy key))
    (hunlinked : ∀ s t, ¬ g.Joined EdgeLabel.cloneOf s t) :
    Environment.graph.Yields (b.build placing key codeList).run g fun result g' =>
      (∃ report, result = .ok report) ∧
        ((∃ c s, g.HasValue key c ∧ g.Coded (NodeLabel.generic codeList) c s) →
          RootOutcome g g' key codeList top r) ∧
        ((∀ c s, g.HasValue key c → ¬ g.Coded (NodeLabel.generic codeList) c s) →
          RootMissing g' key r) := by
  have hready : Plan.Ready ⟨g, codeList⟩ {NodeLabel.hierarchy key} :=
    ⟨hcodes, hinside, hunlinked, fun K hK => ⟨key, hK⟩⟩
  refine (yields_build b placing hready hfresh hfree).imp ?_
  rintro result g' ⟨hreport, hstage⟩
  refine ⟨hreport, fun ⟨c, s, hvalue, hs⟩ => ?_, fun hnone => ?_⟩
  · exact hstage.rootOutcome hready r htitled hinside hrooted
      (hcodes.relevant_iff.2 ⟨c, s, s, hvalue, hs, hs, .refl⟩)
  · refine hstage.rootMissing hready r fun c hc => ?_
    obtain ⟨d, s, -, hvalue, hs, -⟩ := hcodes.relevant_iff.1 hc
    exact hnone d s hvalue hs

/-- Edges that all lead to lower ids form no cycle. -/
theorem acyclic_of_edges (h : ∀ e ∈ g.edges, e.label = EdgeLabel.hasParent → e.target < e.source)
    (s : Id) : ¬ TransGen g.Up s s := by
  have hdown : ∀ a b, g.Up a b → b < a := by
    intro a b hup
    obtain ⟨e, he, hl, rfl, rfl⟩ := joined_iff.1 hup
    exact h e he hl
  have hchain : ∀ b, TransGen g.Up s b → b < s := by
    intro b h
    induction h with
    | single hup => exact hdown _ _ hup
    | tail _ hup ih => exact String.lt_trans (hdown _ _ hup) ih
  exact fun h => String.lt_irrefl s (hchain s h)

/-- A generic hierarchy of four nodes, in which two chains lead from the node with data to the
top. -/
def diamond : Graph where
  nodes := Table.ofList
    [("a", ⟨NodeLabel.generic "list",
        Table.ofList [(Property.code, .str "all"), (Property.label, .str "All")]⟩),
      ("b", ⟨NodeLabel.generic "list",
        Table.ofList [(Property.code, .str "left"), (Property.label, .str "Left")]⟩),
      ("c", ⟨NodeLabel.generic "list",
        Table.ofList [(Property.code, .str "right"), (Property.label, .str "Right")]⟩),
      ("d", ⟨NodeLabel.generic "list",
        Table.ofList [(Property.code, .str "part"), (Property.label, .str "Part")]⟩),
      ("x", ⟨NodeLabel.data ⟨"i", "x"⟩, Table.ofList [(Property.value, .str "part")]⟩)]
  edges :=
    [⟨⟨"e", EdgeLabel.hasParent, "d", "b"⟩, .empty⟩,
      ⟨⟨"f", EdgeLabel.hasParent, "d", "c"⟩, .empty⟩,
      ⟨⟨"g", EdgeLabel.hasParent, "b", "a"⟩, .empty⟩,
      ⟨⟨"h", EdgeLabel.hasParent, "c", "a"⟩, .empty⟩]
  supply := ⟨longerAndLonger 2, 0⟩

theorem diamond_rooted : diamond.Rooted (NodeLabel.generic "list") "all" := by
  have htop : diamond.Coded (NodeLabel.generic "list") "all" "a" :=
    mem_idsWithCode.1 (by decide +kernel)
  refine ⟨fun s _ => acyclic_of_edges (by decide +kernel) s, ⟨"a", htop, fun p hup => ?_⟩,
    fun s hs hnone => ?_⟩
  · have hnotup : "a" ∉ diamond.edges.map (·.source) := by decide +kernel
    obtain ⟨e, he, -, hsource, -⟩ := joined_iff.1 hup
    exact hnotup (List.mem_map.2 ⟨e, he, hsource⟩)
  · have hids : diamond.idsWithLabel (NodeLabel.generic "list") = ["a", "b", "c", "d"] := by
      decide +kernel
    have hmem := mem_idsWithLabel.2 hs
    rw [hids] at hmem
    have hb : 0 < diamond.tally EdgeLabel.hasParent "b" "a" := by decide +kernel
    have hc : 0 < diamond.tally EdgeLabel.hasParent "c" "a" := by decide +kernel
    have hd : 0 < diamond.tally EdgeLabel.hasParent "d" "b" := by decide +kernel
    simp only [List.mem_cons, List.not_mem_nil, or_false] at hmem
    rcases hmem with rfl | rfl | rfl | rfl
    · exact htop
    · exact absurd hb (hnone "a")
    · exact absurd hc (hnone "a")
    · exact absurd hd (hnone "b")

theorem build_rooted_diamond :
    Environment.graph.Yields ((Backend.gremlin (.of 1 2) (.of 1 2)).build true ⟨"i", "x"⟩
      "list").run diamond fun result g' =>
        (∃ report, result = .ok report) ∧
          ((∃ c s, diamond.HasValue ⟨"i", "x"⟩ c ∧
              diamond.Coded (NodeLabel.generic "list") c s) →
            RootOutcome diamond g' ⟨"i", "x"⟩ "list" "all" ⟨.gremlin⟩) ∧
          ((∀ c s, diamond.HasValue ⟨"i", "x"⟩ c →
              ¬ diamond.Coded (NodeLabel.generic "list") c s) →
            RootMissing g' ⟨"i", "x"⟩ ⟨.gremlin⟩) :=
  build_rooted (.gremlin (.of 1 2) (.of 1 2)) true ⟨"i", "x"⟩ "list" diamond ⟨.gremlin⟩ "all"
    (fresh_of_short rfl (by decide +kernel) (by decide +kernel))
    (.of_nodup (by decide +kernel) (by decide +kernel)) (by unfold Titled; decide +kernel)
    (inside_of_edges (by decide +kernel)) diamond_rooted (label?_ne_of_ids (by decide +kernel))
    (unlinked_of_edges (by decide +kernel))

end Graph
end InstanceHierarchy
