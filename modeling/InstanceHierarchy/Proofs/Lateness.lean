import InstanceHierarchy.Proofs.BulkOutcome
import InstanceHierarchy.Proofs.Coverage
import InstanceHierarchy.Proofs.Deadlines
import InstanceHierarchy.Proofs.Misfits

/-!
# Steps that are taken too late

A step of writing a hierarchy is taken in a context whose deadline has passed.  The deadline is
looked at by the workers of a pool and before every attempt under a retry policy.  So the backend
that repeats its statements refuses every step, and the other one refuses the steps that it takes in
batches.  A statement that this one sends on its own is sent without a look at the deadline: such a
step does what it would have done in time.  Which of the two it is does not depend on how the
workers of a pool take turns.

The clock goes forwards, so that a deadline stays passed.
-/

namespace InstanceHierarchy

open Environment

/-! ## Steps -/

/-- The steps by which a hierarchy is written, with what each of them is told. -/
inductive WritingStep where
  | constrain (key : HierarchyKey)
  | cloneList (key : HierarchyKey) (codeList : Id)
  | relateList (key : HierarchyKey) (codeList : Id)
  | unlinkClones (key : HierarchyKey)
  | countChildren (key : HierarchyKey)
  | flagData (key : HierarchyKey)
  | markRemaining (key : HierarchyKey)
  | dropUnmarked (key : HierarchyKey)
  | clearMarks (key : HierarchyKey)
  | onIds (step : IdStep) (ids : TextSet)
  | linkCodes (codeList : Id) (codes : CodesById)

namespace WritingStep

/-- Take the step with a backend. -/
def run (b : Backend) : WritingStep → StoreM Unit
  | constrain key => b.constrain key
  | cloneList key codeList => b.cloneList key codeList
  | relateList key codeList => b.relateList key codeList
  | unlinkClones key => b.unlinkClones key
  | countChildren key => b.countChildren key
  | flagData key => b.flagData key
  | markRemaining key => b.markRemaining key
  | dropUnmarked key => b.dropUnmarked key
  | clearMarks key => b.clearMarks key
  | onIds step ids => step.run b ids
  | linkCodes codeList codes => b.linkCodes codeList codes

/-- There is nothing to do: nothing to do it to, or no way to do it in the language of the
backend. -/
def Idle (b : Backend) (g : Graph) : WritingStep → Prop
  | constrain _ => b.dialect = .gremlin
  | flagData key => g.dataCodes (NodeLabel.data key) = []
  | onIds _ ids => ids.toList = []
  | linkCodes _ codes => codes.entries = []
  | _ => False

/-- The step is taken in batches where it is offered. -/
def InBatches : WritingStep → Prop
  | onIds .. | linkCodes .. => True
  | _ => False

/-- Before it changes anything, the backend looks at the deadline, or it finds nothing to change. -/
def Heeds (b : Backend) (g : Graph) (step : WritingStep) : Prop :=
  b.dialect = .cypher ∨ step.InBatches ∨ step.Idle b g

end WritingStep

/-! ## After the deadline -/

namespace Environment

variable {σ : Type} {env : Environment σ} {s : σ}

/-- After the deadline every call of a pool is left out. -/
theorem callAll_late (hlate : env.expired s = true) (m : Method) (statements : List Statement) :
    env.callAll m statements s = (statements.map fun st => ⟨st, none⟩, s) := by
  induction statements with
  | nil => rfl
  | cons st rest ih => rw [callAll, if_pos hlate, ih, List.map_cons]

/-- After the deadline no attempt is made. -/
theorem yields_callRetrying_late {post : Except StoreError Unit → σ → Prop} {policy : RetryPolicy}
    {st : Statement} (hlate : env.expired s = true)
    (h : post (.error (StoreError.deadlineExceeded.withStatement st.text)) s) :
    env.Yields (StoreM.callRetrying policy .mutation st).run s post := by
  show env.Yields (policy.runFrom st.text _ 1) s post
  rw [RetryPolicy.runFrom]
  refine yields_look ?_
  rw [hlate]
  exact yields_pure h

/-- After the deadline a batch sends nothing, and fails for the deadline unless it is empty. -/
theorem yields_sendAll_late (hlate : env.expired s = true) (scheduler : BatchScheduler)
    (m : Method) (statements : List Statement) :
    env.Yields (StoreM.sendAll scheduler m statements).run s fun r s' =>
      s' = s ∧ (r = .ok () → statements = []) ∧ ∀ e, r = .error e → e = .deadlineExceeded := by
  rw [StoreM.run_sendAll]
  refine (yields_reached _ _ _).imp fun r s' hreached => ?_
  obtain ⟨ends, t, hpool, hpure⟩ := reached_of_bind hreached
  cases eq_of_pure_reached hpure
  obtain ⟨order, horder, hends, hs⟩ := pool_reached hpool
  rw [callAll_late hlate] at hends hs
  have hfailure : ∀ c ∈ ends, c.failure? = some .deadlineExceeded := by
    intro c hc
    obtain ⟨st, -, rfl⟩ := List.mem_map.1 (hends.mem_iff.1 hc)
    rfl
  refine ⟨hs, fun hok => ?_, fun e he => ?_⟩
  · -- a call that was left out would have been a failure
    have hnone : ends = [] := by
      refine List.eq_nil_iff_forall_not_mem.2 fun c hc => ?_
      have hfails := hfailure c hc
      rw [StoreM.sent_eq_ok.1 hok c hc] at hfails
      cases hfails
    rw [hnone, List.nil_perm, List.map_eq_nil_iff] at hends
    rw [hends] at horder
    exact List.nil_perm.1 horder
  · obtain ⟨before, c, after, rfl, hc, -⟩ := StoreM.sent_eq_error.1 he
    have hfails := hfailure c (by simp)
    rw [hc] at hfails
    exact Option.some.inj hfails

end Environment

/-! ## The two ways in which a step comes out -/

/-- Nothing but queries was sent, and the graph is as it was. -/
structure Watched.Untouched (g : Graph) (s : Watched Graph) : Prop where
  unsent : ∀ e ∈ s.log, ¬ e.1.Mutates
  kept : s.store = g

/-- The step came to nothing.  A failure says that it is too late or that there is no such step, and
a success that there was nothing to do. -/
structure WritingStep.Refused (b : Backend) (g : Graph) (step : WritingStep)
    (r : Except StoreError Unit) (s : Watched Graph) : Prop where
  untouched : s.Untouched g
  failure : ∀ e, r = .error e → e.root = .deadlineExceeded ∨ ∃ name, e.root = .notImplemented name
  success : r = .ok () → step.Idle b g

/-- A program went ahead: it sent a mutation, and came to what it comes to without a deadline. -/
structure Program.WentAhead (p : Program (Except StoreError Unit)) (g : Graph)
    (r : Except StoreError Unit) (s : Watched Graph) : Prop where
  sent : ∃ e ∈ s.log, e.1.Mutates
  success : r = .ok ()
  same : Environment.graph.run p g = (r, s.store)

theorem Program.WentAhead.not_refused {p : Program (Except StoreError Unit)} {b : Backend}
    {g g' : Graph} {step : WritingStep} {r : Except StoreError Unit} {s : Watched Graph}
    (h : p.WentAhead g r s) : ¬ step.Refused b g' r s := by
  intro hrefused
  obtain ⟨e, he, hmutates⟩ := h.sent
  exact hrefused.untouched.unsent e he hmutates

variable {context : CallContext} {clock : Nat → Nat} {g : Graph} {b : Backend} {s : Watched Graph}

/-- A deadline that had passed before the first call has passed at all times. -/
theorem expired_of_late {σ : Type} {env : Environment σ} (hclock : Monotone clock)
    (hlate : context.isExpired (clock 0) = true) (s : Watched σ) :
    (env.watched context clock).expired s = true :=
  Deadline.isPast_mono (hclock (Nat.zero_le s.events)) hlate

theorem Watched.untouched_start (g : Graph) : (Watched.start g).Untouched g :=
  ⟨fun _ he => absurd he List.not_mem_nil, rfl⟩

/-- A query is answered, and changes nothing. -/
theorem Watched.Untouched.ask (h : s.Untouched g) {m : Method} (hm : m ≠ .mutation) {q : Query}
    {reply : m.Reply} (hfit : m.fit? (g.answer q) = some reply) (d : Dialect) :
    ∃ s', (graph.watched context clock).call m (.of d (.query q)) s = (.ok reply, s') ∧
      s'.Untouched g := by
  obtain ⟨hunsent, rfl⟩ := h
  have hcall : graph.call m (.of d (.query q)) s.store = (.ok reply, s.store) :=
    Graph.call_query hfit _
  refine ⟨⟨s.store, s.events + 1, s.log ++ [(⟨m, .of d (.query q)⟩, clock s.events)]⟩, ?_, ?_, rfl⟩
  · simp only [watched, hcall]
  · intro e he
    rcases List.mem_append.1 he with he | he
    · exact hunsent e he
    · obtain rfl := List.mem_singleton.1 he
      exact fun hmutates => hmutates.elim hm nofun

/-- The codes with data are asked for, and if there are any, they are sent in a mutation. -/
theorem yields_flagData {post : Except StoreError Unit → Watched Graph → Prop} (b : Backend)
    (key : HierarchyKey) (hs : s.Untouched g)
    (hnone : ∀ s', s'.Untouched g → g.dataCodes (NodeLabel.data key) = [] → post (.ok ()) s')
    (hsome : ∀ s', s'.Untouched g → g.dataCodes (NodeLabel.data key) ≠ [] →
      (graph.watched context clock).Yields
        (b.mutate (.flagData key (g.dataCodes (NodeLabel.data key)))).run s' post) :
    (graph.watched context clock).Yields (b.flagData key).run s post := by
  obtain ⟨s', hcall, hs'⟩ :
      ∃ s', (graph.watched context clock).call .strings
          (.of b.reader.dialect (.query (.dataCodes key))) s =
        (.ok (g.dataCodes (NodeLabel.data key)), s') ∧ s'.Untouched g :=
    hs.ask (by decide) rfl _
  refine yields_call ?_
  rw [hcall]
  show (graph.watched context clock).Yields (ExceptT.run (if _ then pure () else _)) s' post
  split_ifs with hempty
  · exact yields_pure (hnone s' hs' (List.isEmpty_iff.1 hempty))
  · exact hsome s' hs' fun hnil => hempty (List.isEmpty_iff.2 hnil)

/-! ## Steps that are refused -/

namespace WritingStep

variable {step : WritingStep}

theorem refused_late {e : StoreError} (he : e.root = .deadlineExceeded) (hs : s.Untouched g) :
    step.Refused b g (.error e) s := by
  refine ⟨hs, fun e' he' => ?_, nofun⟩
  cases he'
  exact Or.inl he

theorem refused_idle (hidle : step.Idle b g) (hs : s.Untouched g) : step.Refused b g (.ok ()) s :=
  ⟨hs, nofun, fun _ => hidle⟩

/-- The backend has no such step. -/
theorem yields_not_offered (name : String) (hs : s.Untouched g) :
    (graph.watched context clock).Yields (.pure (.error (.notImplemented name))) s
      (step.Refused b g) := by
  refine yields_pure ⟨hs, fun e he => ?_, nofun⟩
  cases he
  exact Or.inr ⟨name, rfl⟩

variable (hlate : ∀ s, (graph.watched context clock).expired s = true)

include hlate

theorem yields_mutate_late (retry : RetryPolicy) (m : Mutation) (hs : s.Untouched g) :
    (graph.watched context clock).Yields ((Backend.cypher retry).mutate m).run s
      (step.Refused b g) :=
  yields_callRetrying_late (hlate s) (refused_late (StoreError.root_withStatement _ _) hs)

theorem yields_batches_late (scheduler : BatchScheduler) (m : Method) {statements : List Statement}
    (hidle : statements = [] → step.Idle b g) (hs : s.Untouched g) :
    (graph.watched context clock).Yields (StoreM.sendAll scheduler m statements).run s
      (step.Refused b g) := by
  refine (yields_sendAll_late (hlate s) scheduler m statements).imp fun r s' h => ?_
  obtain ⟨rfl, hok, herror⟩ := h
  refine ⟨hs, fun e he => Or.inl ?_, fun hr => hidle (hok hr)⟩
  rw [herror e he]
  rfl

/-- The backend that repeats its statements refuses every step, or has no such step. -/
theorem refused_cypher (retry : RetryPolicy) (g : Graph) (step : WritingStep) :
    (graph.watched context clock).Yields (step.run (.cypher retry)).run (.start g)
      (step.Refused (.cypher retry) g) := by
  have hs := Watched.untouched_start g
  have hmutate : ∀ m, (graph.watched context clock).Yields ((Backend.cypher retry).mutate m).run
      (.start g) (step.Refused (.cypher retry) g) :=
    fun m => yields_mutate_late hlate retry m hs
  cases step with
  | flagData key =>
      exact yields_flagData _ key hs (fun s' hs' hnone => refused_idle hnone hs')
        fun s' hs' _ => yields_mutate_late hlate retry _ hs'
  | onIds step ids => cases step <;> exact yields_not_offered _ hs
  | linkCodes codeList codes => exact yields_not_offered _ hs
  | _ => exact hmutate _

/-- The other backend refuses the steps that it takes in batches, and those that have nothing to
do. -/
theorem refused_gremlin (reading writing : BatchScheduler) {step : WritingStep}
    (h : step.InBatches ∨ step.Idle (.gremlin reading writing) g) :
    (graph.watched context clock).Yields (step.run (.gremlin reading writing)).run (.start g)
      (step.Refused (.gremlin reading writing) g) := by
  have hs := Watched.untouched_start g
  cases step with
  | constrain key => exact yields_pure (refused_idle rfl hs)
  | flagData key =>
      have hidle : g.dataCodes (NodeLabel.data key) = [] := h.resolve_left id
      exact yields_flagData _ key hs (fun s' hs' hnone => refused_idle hnone hs')
        fun s' _ hsome => absurd hidle hsome
  | onIds step ids =>
      show (graph.watched context clock).Yields (step.run _ ids).run _ _
      rw [step.run_gremlin]
      refine yields_batches_late hlate writing _ (fun hnone => ?_) hs
      -- without batches there are no ids
      have hflatten := flatten_chunks writing.batchSize ids.toList
      rw [List.map_eq_nil_iff, BatchScheduler.split] at hnone
      rw [hnone] at hflatten
      exact hflatten.symm
  | linkCodes codeList codes =>
      exact yields_batches_late hlate writing _ List.map_eq_nil_iff.1 hs
  | _ => exact (h.elim id id).elim

end WritingStep

/-! ## Steps that go ahead -/

/-- A mutation that is sent without a look at the deadline is carried out. -/
theorem yields_sent {method : Method} (hm : Graph.Sends method) (m : Mutation)
    {next : Result method → Program (Except StoreError Unit)}
    (hnext : ∀ reply, next (.ok reply) = .pure (.ok ())) (hs : s.Untouched g) :
    (graph.watched context clock).Yields (.call method m.statement next) s
      (Program.WentAhead (.call method m.statement next) g) := by
  obtain ⟨-, rfl⟩ := hs
  obtain ⟨reply, hcall⟩ := s.store.call_mutation hm m m.statement.text
  have hcall : graph.call method m.statement s.store = (.ok reply, (s.store.mutate m).2) := hcall
  refine yields_call ?_
  simp only [watched, hcall, hnext]
  refine yields_pure ⟨⟨(⟨method, m.statement⟩, clock s.events), by simp, Or.inr ⟨m, rfl⟩⟩, rfl, ?_⟩
  simp only [Environment.run, hcall, hnext]

theorem run_flagData (b : Backend) (key : HierarchyKey)
    (hsome : g.dataCodes (NodeLabel.data key) ≠ []) :
    graph.run (b.flagData key).run g =
      graph.run (b.mutate (.flagData key (g.dataCodes (NodeLabel.data key)))).run g := by
  show graph.run (ExceptT.run (if (g.dataCodes (NodeLabel.data key)).isEmpty then pure ()
    else b.mutate (.flagData key (g.dataCodes (NodeLabel.data key))))) g = _
  rw [if_neg fun hempty => hsome (List.isEmpty_iff.1 hempty)]

namespace WritingStep

/-- The backend that sends its statements once takes the other steps whether it is late or not. -/
theorem ahead_gremlin (reading writing : BatchScheduler) (g : Graph) {step : WritingStep}
    (h : ¬ step.Heeds (.gremlin reading writing) g) :
    (graph.watched context clock).Yields (step.run (.gremlin reading writing)).run (.start g)
      ((step.run (.gremlin reading writing)).run.WentAhead g) := by
  obtain ⟨-, hother⟩ := not_or.1 h
  obtain ⟨hbatches, hidle⟩ := not_or.1 hother
  have hs := Watched.untouched_start g
  have hmutate : ∀ m, ∀ s, s.Untouched g →
      (graph.watched context clock).Yields ((Backend.gremlin reading writing).mutate m).run s
        (((Backend.gremlin reading writing).mutate m).run.WentAhead g) :=
    fun m s hs => yields_sent (Or.inl rfl) m (fun _ => rfl) hs
  cases step with
  | constrain key => exact absurd rfl hidle
  | relateList key codeList => exact yields_sent (Or.inr rfl) _ (fun _ => rfl) hs
  | flagData key =>
      refine yields_flagData _ key hs (fun s' _ hnone => absurd hnone hidle) fun s' hs' hsome => ?_
      refine (hmutate _ s' hs').imp fun r s'' hahead => ⟨hahead.sent, hahead.success, ?_⟩
      exact (run_flagData _ key hsome).trans hahead.same
  | onIds step ids => exact absurd trivial hbatches
  | linkCodes codeList codes => exact absurd trivial hbatches
  | _ => exact hmutate _ _ hs

/-- A step that is taken after its deadline comes to nothing if the backend looks at the deadline
before it changes anything, or finds nothing to change.  Otherwise a mutation is sent all the same,
and the graph becomes what it would have become in time. -/
theorem late_step (b : Backend) (g : Graph) (step : WritingStep) (context : CallContext)
    (clock : Nat → Nat) (hclock : Monotone clock) (hlate : context.isExpired (clock 0) = true) :
    (graph.watched context clock).Yields (step.run b).run (.start g) fun r s =>
      (step.Refused b g r s ↔ step.Heeds b g) ∧
        (¬ step.Heeds b g → (step.run b).run.WentAhead g r s) := by
  have hlate : ∀ s, (graph.watched context clock).expired s = true := expired_of_late hclock hlate
  by_cases hheeds : step.Heeds b g
  · have hrefused : (graph.watched context clock).Yields (step.run b).run (.start g)
        (step.Refused b g) := by
      cases b with
      | cypher retry => exact refused_cypher hlate retry g step
      | gremlin reading writing =>
          have hdialect : (Backend.gremlin reading writing).dialect ≠ .cypher := nofun
          exact refused_gremlin hlate reading writing (hheeds.resolve_left hdialect)
    exact hrefused.imp fun r s h => ⟨iff_of_true h hheeds, fun hnot => absurd hheeds hnot⟩
  · cases b with
    | cypher retry => exact absurd (Or.inl rfl) hheeds
    | gremlin reading writing =>
        exact (ahead_gremlin reading writing g hheeds).imp fun r s h =>
          ⟨iff_of_false h.not_refused hheeds, fun _ => h⟩

/-- A context whose deadline is the first moment of all. -/
def overdue : CallContext := ⟨"", some 0⟩

theorem late_step_unmarked :
    Monotone (id : Nat → Nat) ∧ overdue.isExpired 0 = true ∧
      (graph.watched overdue id).Yields
        ((dropUnmarked ⟨"i", "x"⟩).run (.cypher .standard)).run (.start Graph.unmarked)
        ((dropUnmarked ⟨"i", "x"⟩).Refused (.cypher .standard) Graph.unmarked) := by
  refine ⟨monotone_id, rfl, ?_⟩
  have hstep := late_step (.cypher .standard) Graph.unmarked (dropUnmarked ⟨"i", "x"⟩) overdue id
    monotone_id rfl
  exact hstep.imp fun r s h => h.1.2 (Or.inl rfl)

/-- The other backend prunes the node although the deadline has passed. -/
theorem late_dropUnmarked :
    overdue.isExpired 0 = true ∧ (Graph.unmarked.node? "k").isSome = true ∧
      ∃ s, (graph.watched overdue id).run
          ((dropUnmarked ⟨"i", "x"⟩).run (.gremlin (.of 1 1) (.of 1 1))).run
          (.start Graph.unmarked) = (.ok (), s) ∧
        (∃ e ∈ s.log, e.1.Mutates) ∧ (s.store.node? "k").isSome = false := by
  refine ⟨rfl, by decide +kernel, _, rfl, ⟨_, List.mem_singleton_self _, Or.inl rfl⟩, ?_⟩
  decide +kernel

end WritingStep
end InstanceHierarchy
