import InstanceHierarchy.Proofs.SharedIdBuilds

/-!
# Recording changes nothing

A store without faults that records its calls moves as the graph alone does, so what a program
yields with such a store it yields with the graph.
-/

namespace InstanceHierarchy

open Environment

namespace ScriptedStore

variable {α : Type} {p p' : Program α} {st : ScriptedStore}

theorem Plain.environment_call (h : st.Plain) (m : Method) (s : Statement) :
    ScriptedStore.environment.call m s st =
      ((Environment.graph.call m s st.graph).1, st.after ⟨m, s⟩
        (Environment.graph.call m s st.graph).2) := h.call_eq m s

/-- Every move with the graph is one with the store. -/
theorem Plain.move (h : st.Plain) {g' : Graph} (hmove : Environment.graph.Move p st.graph p' g') :
    ∃ st', st'.Plain ∧ st'.graph = g' ∧ ScriptedStore.environment.Move p st p' st' := by
  generalize hg : st.graph = g at hmove
  cases hmove with
  | @call m s next =>
      subst hg
      have hstep : ScriptedStore.environment.Move (.call m s next) st _ _ := .call
      rw [h.environment_call m s] at hstep
      exact ⟨_, h.after _ _, rfl, hstep⟩
  | @work m workers statements next _ i hi free _ place =>
      subst hg
      have hstep : ScriptedStore.environment.Move (.pool m workers statements next) st _ _ :=
        .work i hi free h.intime place
      rw [h.environment_call m statements[i]] at hstep
      exact ⟨_, h.after _ _, rfl, hstep⟩
  | skip i hi free late place => cases late
  | close => exact ⟨st, h, hg, .close⟩
  | @look next =>
      have hstep : ScriptedStore.environment.Move (.expired next) st _ _ := .look
      rw [h.intime] at hstep
      exact ⟨st, h, hg, hstep⟩
  | @pause ms => exact ⟨ScriptedStore.environment.pause ms st, h, hg, .pause⟩

/-- Every move with the store is one with the graph. -/
theorem Plain.graph_move (h : st.Plain) {st' : ScriptedStore}
    (hmove : ScriptedStore.environment.Move p st p' st') :
    Environment.graph.Move p st.graph p' st'.graph := by
  cases hmove with
  | @call m s next =>
      rw [h.environment_call m s]
      exact .call
  | @work m workers statements next _ i hi free _ place =>
      rw [h.environment_call m statements[i]]
      exact .work i hi free rfl place
  | skip i hi free late place =>
      rw [h.intime] at late
      cases late
  | close => exact .close
  | @look next =>
      rw [h.intime]
      exact .look
  | pause => exact .pause

end ScriptedStore

/-- What a program yields with a recording store, it yields with the graph. -/
theorem Environment.Yields.of_recorded {α : Type} {p : Program α} {st : ScriptedStore}
    {post : α → Graph → Prop} (hplain : st.Plain)
    (h : ScriptedStore.environment.Yields p st fun a st' => post a st'.graph) :
    Environment.graph.Yields p st.graph post := by
  -- the executions go in step: the store makes the moves of the graph, and no others
  have key : ∀ c : Program α × ScriptedStore, Inevitable ScriptedStore.environment.Solo
      (fun c => ∃ a, c.1 = .pure a ∧ post a c.2.graph) c → c.2.Plain →
      Inevitable Environment.graph.Solo (fun c => ∃ a, c.1 = .pure a ∧ post a c.2)
        (c.1, c.2.graph) := by
    intro c hc
    induction hc with
    | reached hgoal => exact fun _ => .reached hgoal
    | @ahead c c' hmove _ ih =>
        intro hplain
        refine .ahead (hplain.graph_move hmove).solo ?_
        rintro ⟨p', g'⟩ hmove'
        obtain ⟨st', hst', rfl, hstep⟩ := hplain.move hmove'
        exact ih (p', st') hstep hst'
  exact key (p, st) h hplain

end InstanceHierarchy
