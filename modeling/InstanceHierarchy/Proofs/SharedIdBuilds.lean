import InstanceHierarchy.Proofs.IdBuildCalls

/-!
# Builds from ids in company

Several builds from ids may share a store that keeps a record of its calls.  What a build relies on
is that each call of the others is one of such a build, for another hierarchy: it may cut links and
give places that are not its own, but it clones nothing for the hierarchy of the build.  So the
hierarchy is, at every moment, the sketch of what the store has received.
-/

namespace InstanceHierarchy

open Relation Environment Trail

/-! ## Stores without faults -/

namespace ScriptedStore

/-- No call is answered by a fault, and there is no deadline. -/
def Plain (st : ScriptedStore) : Prop := st.faults = [] ∧ st.callsLeft = none

/-- The store after a call that left a graph. -/
def after (st : ScriptedStore) (e : Received) (g : Graph) : ScriptedStore :=
  { st with
    graph := g
    log := st.log ++ [e] }

theorem Plain.after {st : ScriptedStore} (h : st.Plain) (e : Received) (g : Graph) :
    (st.after e g).Plain := h

/-- A plain store passes every call to its graph and records it. -/
theorem Plain.call_eq {st : ScriptedStore} (h : st.Plain) (m : Method) (s : Statement) :
    ScriptedStore.call m s st =
      ((st.graph.call m s).1, st.after ⟨m, s⟩ (st.graph.call m s).2) := by
  obtain ⟨graph, faults, log, callsLeft, waited⟩ := st
  obtain ⟨hfaults, hleft⟩ := h
  cases hfaults
  cases hleft
  rfl

theorem Plain.intime {st : ScriptedStore} (h : st.Plain) :
    ScriptedStore.environment.expired st = false := by
  show decide (st.callsLeft = some 0) = false
  rw [h.2]
  rfl

theorem plain_ofGraph (g : Graph) : (ofGraph g).Plain := ⟨rfl, rfl⟩

end ScriptedStore

/-! ## What others may do -/

/-- The call is not one that clones for the hierarchy with the label. -/
def Operation.Foreign (label : String) (op : Operation) : Prop :=
  ∀ key codeList ids hasData, op = .mutation (.cloneSources key codeList ids hasData) →
    NodeLabel.hierarchy key ≠ label

/-- Only cloning concerns one hierarchy more than the others. -/
theorem Operation.foreign_of_ne {op : Operation} (label : String)
    (h : ∀ key codeList ids hasData, op ≠ .mutation (.cloneSources key codeList ids hasData)) :
    op.Foreign label :=
  fun key codeList ids hasData hop => absurd hop (h key codeList ids hasData)

theorem Operation.Foreign.clones {label : String} {e : Received}
    (h : e.statement.operation.Foreign label) (s : Id) : ¬ e.Clones label s := by
  rintro ⟨key, codeList, ids, hasData, hop, hkey, -⟩
  exact h key codeList ids hasData hop hkey

theorem Operation.Foreign.follows {label : String} {op : Operation} (h : op.Foreign label)
    (P : Plan) (data : Id → Bool) : P.Follows data label op :=
  fun key codeList ids hasData hop hkey => absurd hkey (h key codeList ids hasData hop)

/-- Links that are cut stay so when the build clones no more. -/
theorem not_linked_append {label : String} {log : List Received} {e : Received}
    (hforeign : e.statement.operation.Foreign label) {s : Id} (hcut : ¬ Linked label log s) :
    ¬ Linked label (log ++ [e]) s := by
  rw [linked_append]
  rintro (hclones | ⟨hlinked, -⟩)
  · exact hforeign.clones s hclones
  · exact hcut hlinked

variable {L : Set String} {P : Plan} {label : String}

/-- A call of another build. -/
inductive Nudge (L : Set String) (P : Plan) (label : String) :
    ScriptedStore → ScriptedStore → Prop where
  | call {st : ScriptedStore} {g : Graph} (e : Received) (company : ∃ K ∈ L, K ≠ label)
      (foreign : e.statement.operation.Foreign label)
      (advances : Graph.Advances L P {label} e.statement.operation st.graph g) :
      Nudge L P label st (st.after e g)

/-- How a build from ids shares the store. -/
def company (L : Set String) (P : Plan) (label : String) : Sharing ScriptedStore where
  rely := ReflTransGen (Nudge L P label)
  guar st st' := ∀ K ∈ L, K ≠ label → ReflTransGen (Nudge L P K) st st'
  rely_refl _ := .refl
  rely_trans := .trans
  guar_refl _ _ _ _ := .refl

/-- Builds from ids of different hierarchies put up with each other. -/
theorem company_compatible {A B : String} (hB : B ∈ L) (hne : B ≠ A) (st st' : ScriptedStore)
    (h : (company L P A).guar st st') : (company L P B).rely st st' := h B hB hne

/-- A call of a build is one that the others put up with. -/
theorem company_guar {st : ScriptedStore} {e : Received} {g : Graph} (hL : label ∈ L)
    (hforeign : ∀ K, K ≠ label → e.statement.operation.Foreign K)
    (h : Graph.Advances L P (L \ {label}) e.statement.operation st.graph g) :
    (company L P label).guar st (st.after e g) := by
  intro K hK hne
  have hone := h.mono (Set.singleton_subset_iff.2 (⟨hK, hne⟩ : K ∈ L \ {label}))
  exact .single (.call e ⟨label, hL, hne.symm⟩ (hforeign K hne) hone)

/-! ## Where a build stands -/

/-- No call of another build makes the property of the graph and the record fail. -/
def Lasting (L : Set String) (P : Plan) (label : String) (Q : Graph → List Received → Prop) :
    Prop :=
  ∀ g g' log e, (∃ K ∈ L, K ≠ label) → e.statement.operation.Foreign label →
    Graph.Kept g g' → (∀ s, g.CodeLinked P s → g'.CodeLinked P s) → Q g log → Q g' (log ++ [e])

/-- The hierarchy of the build is the sketch of what the store has received, with the children of
some nodes counted; and they are counted only when all links of the hierarchy are cut. -/
structure Standing (L : Set String) (P : Plan) (data : Id → Bool) (label : String)
    (counted : String → Prop) (Q : Graph → List Received → Prop) (st : ScriptedStore) :
    Prop where
  plain : st.Plain
  site : Graph.Site L P st.graph
  shows : st.graph.Shows label ((P.sketch data (.ofLog label st.log)).count counted)
  cut : (∃ c, counted c) → ∀ s, ¬ Linked label st.log s
  holds : Q st.graph st.log

/-- Without links nothing that others call changes the picture. -/
theorem Plan.applied_of_cut {op : Operation} {pic : Picture} (h : op.Foreign label)
    (hcut : ∀ c s, ¬ pic.link c s) : P.applied label op pic = pic := by
  have hplace : ∀ ids : List Id, pic.placeAll P.place ids = pic := by
    intro ids
    unfold Picture.placeAll
    induction ids with
    | nil => rfl
    | cons s rest ih =>
        have hone : pic.placeOne P.place s = pic := by
          unfold Picture.placeOne
          cases P.place s with
          | none => rfl
          | some order => exact Picture.setWhere_eq_self fun c => hcut c s
        rw [List.foldl_cons, hone, ih]
  cases op with
  | query q => rfl
  | mutation m =>
      cases m with
      | cloneSources key codeList ids hasData =>
          -- the call clones for another hierarchy
          have hne := h key codeList ids hasData rfl
          show Graph.onlyOn _ _ label pic = pic
          rw [Graph.onlyOn_of_ne _ hne.symm]
          rfl
      | relateSources key ids =>
          show Graph.onlyOn _ _ label pic = pic
          by_cases hkey : label = NodeLabel.hierarchy key
          · subst hkey
            rw [Graph.onlyOn_self]
            apply Picture.ext
            · rfl
            · funext c d
              apply propext
              -- parent edges are repeated between linked nodes only
              refine ⟨fun h => h.resolve_right ?_, Or.inl⟩
              rintro ⟨s, -, t, -, hlink, -⟩
              exact hcut c s hlink
            · rfl
          · rw [Graph.onlyOn_of_ne _ hkey]
            rfl
      | copyOrder codeList ids => exact hplace ids
      | unlinkSources ids =>
          apply Picture.ext
          · rfl
          · rfl
          · funext c s
            exact propext ⟨fun h => absurd h.1 (hcut c s), fun h => absurd h (hcut c s)⟩
      | _ => rfl

variable {data : Id → Bool} {counted : String → Prop} {Q : Graph → List Received → Prop}

theorem Standing.uncut {st : ScriptedStore} (h : Standing L P data label counted Q st)
    (hcounted : ∃ c, counted c) (c : String) (s : Id) :
    ¬ (P.sketch data (.ofLog label st.log)).link c s := by
  rintro ⟨n, -, rfl, -, hlinked⟩
  exact h.cut hcounted n.id hlinked

/-- All nodes are counted as soon as those with codes are. -/
theorem Standing.recount {st : ScriptedStore} {counted' : String → Prop}
    {Q' : Graph → List Received → Prop} (h : Standing L P data label counted Q st)
    (hcounted : ∀ c, ((P.sketch data (.ofLog label st.log)).properties c).isSome →
      (counted c ↔ counted' c))
    (hcut : ∀ s, ¬ Linked label st.log s) (hQ : Q st.graph st.log → Q' st.graph st.log) :
    Standing L P data label counted' Q' st := by
  refine ⟨h.plain, h.site, ?_, fun _ => hcut, hQ h.holds⟩
  rw [← Picture.count_congr hcounted]
  exact h.shows

variable (hready : P.Ready L)

include hready

/-- The calls of others leave a build where it stands. -/
theorem Standing.stable (hQ : Lasting L P label Q) :
    (company L P label).Stable (Standing L P data label counted Q) := by
  intro st st' h hrely
  induction hrely with
  | refl => exact h
  | @tail st _ _ hnudge ih =>
      obtain ⟨e, hcompany, hforeign, hadvances⟩ := hnudge
      have hsketch : P.sketch data (.ofLog label (st.log ++ [e])) =
          P.applied label e.statement.operation (P.sketch data (.ofLog label st.log)) :=
        Plan.sketch_append hready.distinct (hforeign.follows P data)
      refine ⟨ih.plain.after e _, hadvances.site, ?_, fun hcounted s hlinked => ?_,
        hQ st.graph _ st.log e hcompany hforeign hadvances.kept hadvances.codes ih.holds⟩
      · have hshows := hadvances.shows label rfl _ ih.shows
        show Graph.Shows _ label ((P.sketch data (.ofLog label (st.log ++ [e]))).count counted)
        -- once children are counted all links are cut, and the call changes nothing;
        -- before that the picture is the sketch itself, which the call takes to the next one
        by_cases hcounted : ∃ c, counted c
        · have huncut : ∀ c s, ¬ ((P.sketch data (.ofLog label st.log)).count counted).link c s :=
            ih.uncut hcounted
          rw [Plan.applied_of_cut hforeign huncut] at hshows
          rw [hsketch, Plan.applied_of_cut hforeign (ih.uncut hcounted)]
          exact hshows
        · rw [Picture.count_none _ (not_exists.1 hcounted)] at hshows ⊢
          rw [hsketch]
          exact hshows
      · exact not_linked_append hforeign (ih.cut hcounted s) hlinked

/-! ## What a build does itself -/

/-- A call of the build itself takes it on. -/
theorem Standing.next {st : ScriptedStore} {e : Received} {g : Graph} {counted' : String → Prop}
    {Q' : Graph → List Received → Prop} (h : Standing L P data label counted Q st)
    (hsite : Graph.Site L P g) (hfollows : P.Follows data label e.statement.operation)
    (hshows : g.Shows label ((P.applied label e.statement.operation
      (P.sketch data (.ofLog label st.log))).count counted'))
    (hcut : (∃ c, counted' c) → ∀ s, ¬ Linked label (st.log ++ [e]) s)
    (hQ : Q' g (st.log ++ [e])) : Standing L P data label counted' Q' (st.after e g) := by
  refine ⟨h.plain.after e g, hsite, ?_, hcut, hQ⟩
  show g.Shows label ((P.sketch data (.ofLog label (st.log ++ [e]))).count counted')
  rw [Plan.sketch_append hready.distinct hfollows]
  exact hshows

/-- A call of the build is carried out, the others put up with it, and it takes the build on. -/
theorem Standing.perform {st : ScriptedStore} {counted' : String → Prop}
    {Q' : Graph → List Received → Prop} (h : Standing L P data label counted Q st) (hL : label ∈ L)
    {m : Method} {op : Operation} {text : String} {reply : m.Reply} {g : Graph}
    (hcall : st.graph.call m ⟨op, text⟩ = (.ok reply, g))
    (hadvances : Graph.Advances L P (L \ {label}) op st.graph g)
    (hforeign : ∀ K, K ≠ label → op.Foreign K) (hfollows : P.Follows data label op)
    (hshows : g.Shows label ((P.applied label op
      (P.sketch data (.ofLog label st.log))).count counted'))
    (hcut : (∃ c, counted' c) → ∀ s, ¬ Linked label (st.log ++ [⟨m, ⟨op, text⟩⟩]) s)
    (hQ : Q' g (st.log ++ [⟨m, ⟨op, text⟩⟩])) :
    (company L P label).guar st (ScriptedStore.call m ⟨op, text⟩ st).2 ∧
      (ScriptedStore.call m ⟨op, text⟩ st).1 = .ok reply ∧
      Standing L P data label counted' Q' (ScriptedStore.call m ⟨op, text⟩ st).2 := by
  have hstore := h.plain.call_eq m ⟨op, text⟩
  rw [hcall] at hstore
  rw [hstore]
  exact ⟨company_guar hL hforeign hadvances, rfl,
    h.next hready hadvances.site hfollows hshows hcut hQ⟩

/-- A mutation of the build, other than counting. -/
theorem Standing.mutate {st : ScriptedStore} {Q' : Graph → List Received → Prop}
    (h : Standing L P data label (fun _ => False) Q st) (hL : label ∈ L) {method : Method}
    (hm : Graph.Sends method) {m : Mutation} {text : String}
    (hadvances : Graph.Advances L P L (.mutation m) st.graph (st.graph.mutate m).2)
    (hforeign : ∀ K, K ≠ label → Operation.Foreign K (.mutation m))
    (hfollows : P.Follows data label (.mutation m))
    (hQ : Q' (st.graph.mutate m).2 (st.log ++ [⟨method, ⟨.mutation m, text⟩⟩])) :
    Achieves.CallDoes ScriptedStore.environment (company L P label) method ⟨.mutation m, text⟩
      (fun _ => Standing L P data label (fun _ => False) Q') st := by
  obtain ⟨reply, hreply⟩ := st.graph.call_mutation hm m text
  have hothers : Graph.Advances L P (L \ {label}) (.mutation m) st.graph (st.graph.mutate m).2 :=
    hadvances.mono Set.sdiff_subset
  have hshows := hadvances.shows label hL _ h.shows
  rw [Picture.count_none _ fun _ => id,
    ← Picture.count_none (P.applied _ _ _) fun _ => id] at hshows
  obtain ⟨hguar, hanswer, hnext⟩ := h.perform hready hL hreply hothers hforeign hfollows hshows
    (fun hcounted => hcounted.elim fun _ => False.elim) hQ
  exact ⟨hguar, reply, hanswer, hnext⟩

/-- A mutation of the build, other than cloning and counting. -/
theorem Standing.mutateLinks {st : ScriptedStore} {Q' : Graph → List Received → Prop}
    (h : Standing L P data label (fun _ => False) Q st) (hL : label ∈ L) {method : Method}
    (hm : Graph.Sends method) {m : Mutation} {text : String}
    (hadvances : Graph.Advances L P L (.mutation m) st.graph (st.graph.mutate m).2)
    (hne : ∀ key codeList ids hasData, Operation.mutation m ≠
      .mutation (.cloneSources key codeList ids hasData))
    (hQ : Q' (st.graph.mutate m).2 (st.log ++ [⟨method, ⟨.mutation m, text⟩⟩])) :
    Achieves.CallDoes ScriptedStore.environment (company L P label) method ⟨.mutation m, text⟩
      (fun _ => Standing L P data label (fun _ => False) Q') st :=
  h.mutate hready hL hm hadvances (fun K _ => Operation.foreign_of_ne K hne)
    ((Operation.foreign_of_ne label hne).follows P data) hQ

/-- Counting the children of some nodes, once all links are cut. -/
theorem Standing.countChildrenOf {st : ScriptedStore} {Q' : Graph → List Received → Prop}
    (h : Standing L P data label counted Q st) (hL : label ∈ L) {ids : List Id} {text : String}
    (hids : ∀ id ∈ ids, st.graph.label? id = some label)
    (hcut : ∀ s, ¬ Linked label st.log s)
    (hQ : Q' (st.graph.mutate (.countChildrenOf ids)).2
      (st.log ++ [⟨.mutation, ⟨.mutation (.countChildrenOf ids), text⟩⟩])) :
    Achieves.CallDoes ScriptedStore.environment (company L P label) .mutation
      ⟨.mutation (.countChildrenOf ids), text⟩
      (fun _ => Standing L P data label
        (fun c => counted c ∨ ∃ id ∈ ids, st.graph.Coded label c id) Q') st := by
  obtain ⟨hadvances, hcount⟩ := Graph.advances_countChildrenOf h.site hL hids
  obtain ⟨reply, hreply⟩ := st.graph.call_mutation (Or.inl rfl) (.countChildrenOf ids) text
  have hforeign : ∀ K, Operation.Foreign K (.mutation (.countChildrenOf ids)) :=
    fun K => Operation.foreign_of_ne K (by simp)
  have hshows := hcount _ h.shows
  rw [Picture.count_count] at hshows
  obtain ⟨hguar, hanswer, hnext⟩ := h.perform hready hL hreply hadvances (fun K _ => hforeign K)
    ((hforeign label).follows P data) hshows
    (fun _ s => not_linked_append (hforeign label) (hcut s)) hQ
  exact ⟨hguar, reply, hanswer, hnext⟩

/-- What a query of the build does. -/
theorem Standing.ask {st : ScriptedStore} {Q' : Graph → List Received → Prop}
    (h : Standing L P data label counted Q st) (hL : label ∈ L) {m : Method} {q : Query}
    {text : String} {reply : m.Reply} (hfit : m.fit? (st.graph.answer q) = some reply)
    (hQ : Q' st.graph (st.log ++ [⟨m, ⟨.query q, text⟩⟩])) :
    (company L P label).guar st (ScriptedStore.call m ⟨.query q, text⟩ st).2 ∧
      (ScriptedStore.call m ⟨.query q, text⟩ st).1 = .ok reply ∧
      Standing L P data label counted Q' (ScriptedStore.call m ⟨.query q, text⟩ st).2 := by
  have hreply : st.graph.call m ⟨.query q, text⟩ = (.ok reply, st.graph) := by
    simp [Graph.call, Graph.perform, hfit]
  have hforeign : ∀ K, Operation.Foreign K (.query q) :=
    fun K => Operation.foreign_of_ne K (by simp)
  have hadvances : Graph.Advances L P (L \ {label}) (.query q) st.graph st.graph :=
    (Graph.advances_query h.site q).mono Set.sdiff_subset
  exact h.perform hready hL hreply hadvances (fun K _ => hforeign K)
    ((hforeign label).follows P data) h.shows
    (fun hcounted s => not_linked_append (hforeign label) (h.cut hcounted s)) hQ

end InstanceHierarchy
