import InstanceHierarchy.Proofs.Building

/-!
# Calls that do not fit their statement

A call asks for one kind of reply, and a statement has one kind of outcome.  Whether they fit does
not depend on the graph: a query fits one method, and a mutation fits the two methods that
mutations are sent by.  All other calls fail.  The graph in memory carries out the statement
before it looks at the outcome and takes nothing back; so a failed query leaves the graph as it
was, while a mutation has been carried out although its sender is told that it failed.
-/

namespace InstanceHierarchy

/-- The method that asks for what a query answers. -/
def Query.method : Query → Method
  | .countNodes _ | .countCodes _ => .count
  | .dataCodes _ | .nodeIds _ => .strings
  | .roots _ | .element .. | .children .. | .ancestry .. => .nodes
  | .genericIds .. | .ancestryIds .. | .codes _ | .code .. | .codesOrder .. => .tabular

/-- A method suits an operation when it asks for what the operation gives. -/
def Operation.Suits (m : Method) : Operation → Prop
  | .query q => q.method = m
  | .mutation _ => Graph.Sends m

namespace Graph

variable (g : Graph)

/-- An answer fits one method, on every graph. -/
theorem fit?_answer_eq_none {m : Method} {q : Query} :
    m.fit? (g.answer q) = none ↔ q.method ≠ m := by
  cases q <;> cases m <;> simp [answer, Method.fit?, Query.method]

/-- What a mutation yields fits no other methods than those it is sent by. -/
theorem fit?_perform_mutation {method : Method} (hm : ¬ Sends method) (m : Mutation) :
    method.fit? (g.perform (.mutation m)).1 = none := by
  -- it yields nothing, or the edges that it created
  have hyield : (g.perform (.mutation m)).1 = .nothing ∨
      ∃ created, (g.perform (.mutation m)).1 = .edges created := by
    unfold perform
    cases hmutate : g.mutate m with
    | mk created g' => cases created <;> simp [hmutate]
  cases method with
  | mutation => exact absurd (Or.inl rfl) hm
  | edges => exact absurd (Or.inr rfl) hm
  | count | strings | nodes | tabular =>
      rcases hyield with h | ⟨created, h⟩ <;> rw [h] <;> rfl

/-- A statement is carried out also when what it yields does not fit. -/
theorem call_misfit {m : Method} {s : Statement} (h : m.fit? (g.perform s.operation).1 = none) :
    g.call m s = (.error ((g.perform s.operation).1.misfit s.operation m),
      (g.perform s.operation).2) := by
  simp [call, h]

/-- A call fails when the method does not suit the operation; yet the operation is carried out. -/
theorem call_of_not_suits {m : Method} {s : Statement} (h : ¬ s.operation.Suits m) :
    g.call m s = (.error ((g.perform s.operation).1.misfit s.operation m),
      (g.perform s.operation).2) := by
  refine g.call_misfit ?_
  obtain ⟨op, text⟩ := s
  cases op with
  | query q => exact g.fit?_answer_eq_none.2 h
  | mutation mutation => exact g.fit?_perform_mutation h mutation

/-- A call succeeds when the method suits the operation. -/
theorem call_ok_of_suits {m : Method} {s : Statement} (h : s.operation.Suits m) :
    ∃ reply, (g.call m s).1 = .ok reply := by
  obtain ⟨op, text⟩ := s
  cases op with
  | query q =>
      obtain ⟨reply, hfit⟩ := Option.ne_none_iff_exists'.1
        fun hnone => g.fit?_answer_eq_none.1 hnone h
      exact ⟨reply, by rw [call_query hfit]⟩
  | mutation mutation =>
      obtain ⟨reply, hcall⟩ := g.call_mutation h mutation text
      exact ⟨reply, by rw [hcall]⟩

/-- A call fails exactly when the method does not suit the operation.  A query that failed has left
the graph as it was.  A mutation that failed was sent by a method that mutations are not sent by,
and has been carried out as it would have been for its own method. -/
theorem failed_call (m : Method) (s : Statement) :
    ((∃ e, (g.call m s).1 = .error e) ↔ ¬ s.operation.Suits m) ∧
    ∀ e, (g.call m s).1 = .error e →
      (s.operation.isRead = true → (g.call m s).2 = g) ∧
      (s.operation.isRead = false →
        ¬ Sends m ∧ g.call .mutation s = (.ok (), (g.call m s).2)) := by
  obtain ⟨op, text⟩ := s
  have hsuits : ∀ e, (g.call m ⟨op, text⟩).1 = .error e → ¬ op.Suits m := by
    intro e he h
    obtain ⟨reply, hreply⟩ := g.call_ok_of_suits (s := ⟨op, text⟩) h
    rw [he] at hreply
    cases hreply
  refine ⟨⟨fun ⟨e, he⟩ => hsuits e he, fun h => ⟨_, by rw [g.call_of_not_suits h]⟩⟩,
    fun e he => ?_⟩
  rw [g.call_of_not_suits (hsuits e he)]
  cases op with
  | query q => exact ⟨fun _ => rfl, nofun⟩
  | mutation mutation =>
      obtain ⟨reply, hsent⟩ := g.call_mutation (Or.inl rfl) mutation text
      refine ⟨nofun, fun _ => ⟨hsuits e he, ?_⟩⟩
      rw [hsent, perform_mutation]

/-- One node, which is not marked to remain. -/
def unmarked : Graph where
  nodes := Table.ofList [("k", ⟨"_hierarchy_node_i_x", .empty⟩)]
  edges := []
  supply := ⟨longerAndLonger 2, 0⟩

/-- Pruning it, in no language. -/
def pruning : Statement := ⟨.mutation (.dropUnmarked ⟨"i", "x"⟩), ""⟩

/-- Asked how many nodes it is about, the pruning fails, and the node is gone. -/
theorem count_prunes_unmarked :
    (unmarked.call .count pruning).1 =
        .error (.backend "remove_nodes_not_marked_to_remain returns nothing, not a count") ∧
      ((unmarked.call .count pruning).2.node? "k").isNone = true ∧
      (unmarked.call .count pruning).2 ≠ unmarked := by
  have hgone : ((unmarked.call .count pruning).2.node? "k").isNone = true := by decide +kernel
  refine ⟨rfl, hgone, fun hsame => ?_⟩
  rw [hsame] at hgone
  exact absurd hgone (by decide +kernel)

theorem failed_call_unmarked :
    (∃ e, (unmarked.call .count pruning).1 = .error e) ∧ pruning.operation.isRead = false ∧
      unmarked.call .mutation pruning = (.ok (), (unmarked.call .count pruning).2) := by
  have hcalls := unmarked.failed_call .count pruning
  have hfailed : ∃ e, (unmarked.call .count pruning).1 = .error e :=
    hcalls.1.2 fun h => h.elim nofun nofun
  obtain ⟨e, he⟩ := hfailed
  exact ⟨⟨e, he⟩, rfl, ((hcalls.2 e he).2 rfl).2⟩

end Graph
end InstanceHierarchy
