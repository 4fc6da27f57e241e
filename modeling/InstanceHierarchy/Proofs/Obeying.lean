import InstanceHierarchy.Proofs.BatchedItems
import InstanceHierarchy.Proofs.SourceLookup
import InstanceHierarchy.Proofs.TroubledStores

/-!
# Stores that hold a graph

A store obeys when it holds a graph and carries out on it what it is sent.  It may be one that
fails: that answers calls with errors, whether they have taken effect or not, and that is late.  For
a program that has such a store to itself it is enough to know what single mutations do to the graph
and how the graph answers.  A batch that fails leaves the graph at a point that batches pass when
nothing fails, and so do the batches that are carried out after it.
-/

namespace InstanceHierarchy

open Environment

/-- The store carries out on its graph what it is sent; but if it may fail, it may answer with an
error as well, and may or may not have carried out the call then. -/
structure Obeys {σ : Type} (env : Environment σ) (view : σ → Graph) (mayFail : Prop) : Prop where
  late : ∀ s, env.expired s = true → mayFail
  call : ∀ m st s,
    ((env.call m st s).1 = ((view s).call m st).1 ∧
      view (env.call m st s).2 = ((view s).call m st).2) ∨
    (mayFail ∧ (∃ e, (env.call m st s).1 = .error e) ∧
      (view (env.call m st s).2 = view s ∨ view (env.call m st s).2 = ((view s).call m st).2))

/-- The graph in memory does not fail. -/
theorem obeys_graph : Obeys Environment.graph id False where
  late _ h := Bool.false_ne_true h
  call _ _ _ := Or.inl ⟨rfl, rfl⟩

/-- A store in trouble may fail. -/
theorem obeys_trouble (t : Trouble) : Obeys t.environment TroubledStore.graph True where
  late _ _ := trivial
  call m st s := by
    have hcalled := t.called m st s
    generalize t.environment.call m st s = result at hcalled ⊢
    cases hcalled with
    | carriedOut => exact Or.inl ⟨rfl, rfl⟩
    | refused e => exact Or.inr ⟨trivial, ⟨e, rfl⟩, Or.inl rfl⟩
    | cutOff e => exact Or.inr ⟨trivial, ⟨e, rfl⟩, Or.inr rfl⟩

/-- A query leaves the graph as it is, also when its answer does not fit. -/
theorem Graph.call_query_snd (g : Graph) (m : Method) (q : Query) (text : String) :
    (g.call m ⟨.query q, text⟩).2 = g := by
  unfold Graph.call Graph.perform
  cases hfit : m.fit? (g.answer q) <;> simp [hfit]

namespace Obeys

variable {σ : Type} {env : Environment σ} {view : σ → Graph} {mayFail : Prop}
  {keeps A B passes : Graph → Prop}

/-! ## Single calls -/

/-- A mutation leads on.  If it fails, it leaves the graph where it was or leads on all the same. -/
theorem mutate (h : Obeys env view mayFail) {method : Method} (hm : Graph.Sends method)
    {m : Mutation} (text : String) {s : σ} (hA : A (view s)) (hB : B ((view s).mutate m).2)
    (hApasses : ∀ g, A g → passes g) (hBpasses : ∀ g, B g → passes g)
    (hkeeps : ∀ g, passes g → keeps g) :
    (keeps (view s) → keeps (view (env.call method ⟨.mutation m, text⟩ s).2)) ∧
      Ends (fun _ s => B (view s)) (fun s => mayFail ∧ passes (view s))
        (env.call method ⟨.mutation m, text⟩ s).1 (env.call method ⟨.mutation m, text⟩ s).2 := by
  obtain ⟨reply, hreply⟩ := (view s).call_mutation hm m text
  have hcall := h.call method ⟨.mutation m, text⟩ s
  generalize env.call method ⟨.mutation m, text⟩ s = result at hcall ⊢
  obtain ⟨answer, s'⟩ := result
  rw [hreply] at hcall
  rcases hcall with ⟨rfl, hview⟩ | ⟨hfail, ⟨e, rfl⟩, hview⟩
  · have hB' : B (view s') := hview ▸ hB
    exact ⟨fun _ => hkeeps _ (hBpasses _ hB'), hB'⟩
  · have hpasses : passes (view s') := by
      rcases hview with hview | hview
      · exact hview ▸ hApasses _ hA
      · exact hview ▸ hBpasses _ hB
    exact ⟨fun _ => hkeeps _ hpasses, hfail, hpasses⟩

/-- After a failure mutations lead from point to point. -/
theorem goOn (h : Obeys env view mayFail) {method : Method} (hm : Graph.Sends method)
    {m : Mutation} (text : String) {s : σ} (hs : mayFail ∧ passes (view s))
    (hnext : passes ((view s).mutate m).2) (hkeeps : ∀ g, passes g → keeps g) :
    (keeps (view s) → keeps (view (env.call method ⟨.mutation m, text⟩ s).2)) ∧ mayFail ∧
      passes (view (env.call method ⟨.mutation m, text⟩ s).2) := by
  obtain ⟨hkept, hends⟩ :=
    h.mutate hm text hs.2 hnext (fun _ => id) (fun _ => id) hkeeps
  refine ⟨hkept, hs.1, ?_⟩
  cases hresult : (env.call method ⟨.mutation m, text⟩ s).1 with
  | ok reply =>
      rw [hresult] at hends
      exact hends
  | error e =>
      rw [hresult] at hends
      exact hends.2

/-- A query changes nothing. -/
theorem view_query (h : Obeys env view mayFail) (method : Method) (q : Query) (text : String)
    (s : σ) : view (env.call method ⟨.query q, text⟩ s).2 = view s := by
  rcases h.call method ⟨.query q, text⟩ s with ⟨-, hview⟩ | ⟨-, -, hview | hview⟩
  · rw [hview, Graph.call_query_snd]
  · exact hview
  · rw [hview, Graph.call_query_snd]

/-- A query that fits its method is answered from the graph, or fails. -/
theorem query (h : Obeys env view mayFail) {method : Method} {q : Query} (text : String) {s : σ}
    {reply : method.Reply} (hfit : method.fit? ((view s).answer q) = some reply) (hA : A (view s)) :
    Ends (fun r s => r = reply ∧ A (view s)) (fun _ => mayFail)
      (env.call method ⟨.query q, text⟩ s).1 (env.call method ⟨.query q, text⟩ s).2 := by
  have hview := h.view_query method q text s
  have hcall := h.call method ⟨.query q, text⟩ s
  rw [Graph.call_query hfit] at hcall
  generalize env.call method ⟨.query q, text⟩ s = result at hcall hview ⊢
  obtain ⟨answer, s'⟩ := result
  rcases hcall with ⟨rfl, -⟩ | ⟨hfail, ⟨e, rfl⟩, -⟩
  · exact ⟨rfl, hview ▸ hA⟩
  · exact hfail

/-! ## Statements in a program -/

/-- Asking. -/
theorem ask (h : Obeys env view mayFail) {m : Method} {q : Query} {text : String}
    (post : m.Reply → Graph → Prop)
    (hanswer : ∀ g, A g → ∃ reply, m.fit? (g.answer q) = some reply ∧ post reply g) :
    Copes env (.alone fun s => keeps (view s)) (fun s => A (view s))
      (StoreM.call m ⟨.query q, text⟩) (fun reply s => post reply (view s))
      fun _ => mayFail := by
  refine Copes.call (Sharing.stable_alone _ _) (fun _ => Sharing.stable_alone _ _)
    (Sharing.stable_alone _ _) fun s hs => ⟨fun hk => ?_, ?_⟩
  · show keeps (view _)
    rw [h.view_query]
    exact hk
  · obtain ⟨reply, hfit, hpost⟩ := hanswer (view s) hs
    have hends := h.query text hfit hpost
    cases hresult : (env.call m ⟨.query q, text⟩ s).1 with
    | ok r =>
        rw [hresult] at hends
        obtain ⟨rfl, hpost'⟩ := hends
        exact hpost'
    | error e =>
        rw [hresult] at hends
        exact hends

/-- Mutations that are sent for different items lead to the stage at which all items are done. -/
theorem sendEach (h : Obeys env view mayFail) {ι : Type} {scheduler : BatchScheduler}
    {method : Method} (hm : Graph.Sends method) {items : List ι} {mutation : ι → Mutation}
    (hinj : Function.Injective mutation) (stage : List ι → Graph → Prop)
    (hstart : ∀ g, A g → stage [] g)
    (hstep : ∀ done g i, stage done g → i ∈ items → stage (done ++ [i]) (g.mutate (mutation i)).2)
    (hkeeps : ∀ done g, stage done g → keeps g)
    (hend : ∀ done g, stage done g → done.Perm items → B g) :
    Copes env (.alone fun s => keeps (view s)) (fun s => A (view s))
      (StoreM.sendAll scheduler method
        (items.map fun i => .of .gremlin (.mutation (mutation i))))
      (fun _ s => B (view s)) fun _ => mayFail := by
  have hstable := Sharing.stable_alone fun s => keeps (view s)
  have hpasses : ∀ g, (∃ done, stage done g) → keeps g := fun g ⟨done, hg⟩ => hkeeps done g hg
  have hspoilt := hstable fun s => mayFail ∧ ∃ done, stage done (view s)
  refine Copes.sendEach (statement_injective hinj) (fun done s => stage done (view s))
    (fun s => hstart (view s)) (fun _ => hstable _) hspoilt (hstable _) (hstable _)
    (fun done s hs hlate => ⟨h.late s hlate, done, hs⟩) (fun done s i hs hi => ?_)
    (fun s i hs hi => ?_) (fun done s => hend done (view s)) fun s hs => hs.1
  · exact h.mutate hm _ hs (hstep done _ i hs hi) (fun g hg => ⟨_, hg⟩) (fun g hg => ⟨_, hg⟩)
      hpasses
  · obtain ⟨done, hdone⟩ := hs.2
    exact h.goOn hm _ hs ⟨_, hstep done _ i hdone hi⟩ hpasses

/-- Mutations for batches of ids lead to the stage at which all ids are done. -/
theorem mutateIds (h : Obeys env view mayFail) {scheduler : BatchScheduler} {method : Method}
    (hm : Graph.Sends method) {ids : TextSet} {mutation : List Id → Mutation}
    (hinj : Function.Injective mutation) (stage : (Id → Prop) → Graph → Prop)
    (hstep : ∀ done g batch, stage done g → (∀ id ∈ batch, id ∈ ids.toList) →
      stage (fun id => done id ∨ id ∈ batch) (g.mutate (mutation batch)).2)
    (hkeeps : ∀ done g, stage done g → keeps g) :
    Copes env (.alone fun s => keeps (view s)) (fun s => stage (fun _ => False) (view s))
      (Backend.mutateIds scheduler method ids mutation)
      (fun _ s => stage (· ∈ ids.toList) (view s)) fun _ => mayFail := by
  have hstable := Sharing.stable_alone fun s => keeps (view s)
  have hpasses : ∀ g, (∃ done, stage done g) → keeps g := fun g ⟨done, hg⟩ => hkeeps done g hg
  have hspoilt := hstable fun s => mayFail ∧ ∃ done, stage done (view s)
  refine Copes.mutateIds hinj (fun done s => stage done (view s)) (fun _ => hstable _) hspoilt
    (hstable _) (fun done s hs hlate => ⟨h.late s hlate, done, hs⟩)
    (fun done s batch hs hbatch => ?_) (fun s batch hs hbatch => ?_) fun s hs => hs.1
  · exact h.mutate hm _ hs (hstep done _ batch hs hbatch) (fun g hg => ⟨_, hg⟩)
      (fun g hg => ⟨_, hg⟩) hpasses
  · obtain ⟨done, hdone⟩ := hs.2
    exact h.goOn hm _ hs ⟨_, hstep done _ batch hdone hbatch⟩ hpasses

/-- Queries for sources, sent in batches of codes, find what they want of any of them. -/
theorem resolve (h : Obeys env view mayFail) {L : Set String} {P : Plan} (hready : P.Ready L)
    {reading : BatchScheduler} {query : List String → Query} (hinj : Function.Injective query)
    {wanted : List String → Id → Prop} {codes : List String}
    (hwanted : ∀ batch s, wanted batch s → ∃ n ∈ P.sources, n.id = s)
    (hquery : ∀ g batch, Graph.Site L P g →
      ∃ ids, g.answer (query batch) = .rows (g.idCodeRows ids) ∧ ∀ s, s ∈ ids ↔ wanted batch s)
    (hsite : ∀ g, A g → Graph.Site L P g) :
    Copes env (.alone fun s => keeps (view s)) (fun s => A (view s))
      (Resolver.resolve ⟨.gremlin, reading⟩ query codes)
      (fun t s => P.Holds (fun id => ∃ batch ∈ reading.split (TextSet.ofList codes).toList,
        wanted batch id) t ∧ A (view s)) fun _ => mayFail := by
  have hstable := Sharing.stable_alone fun s => keeps (view s)
  have hguar : ∀ s batch, keeps (view s) → keeps (view (env.call .tabular
      (.of .gremlin (.query (query batch))) s).2) := by
    intro s batch hk
    exact (h.view_query .tabular (query batch) _ s).symm ▸ hk
  have hspoilt := hstable fun _ => mayFail
  exact Copes.resolve view hready hinj hwanted hquery (hstable _) hspoilt hspoilt
    (fun s => hsite (view s)) (fun s _ => h.late s)
    (fun s batch reply hs hfit => ⟨hguar s batch, h.query _ hfit hs⟩)
    (fun s batch hs => ⟨hguar s batch, hs⟩) fun _ => id

end Obeys
end InstanceHierarchy
