import InstanceHierarchy.Proofs.Building
import InstanceHierarchy.Proofs.Integrity
import InstanceHierarchy.Proofs.TroubledStores
import InstanceHierarchy.Proofs.Workers

/-!
# Which batches are sent

A step on a set of ids sends one mutation for each slice of the set, and each of them once, whatever
the store answers.  A script says what errors the store answers, call by call.  The calls are made
in an order that is not known beforehand, and they may end in another one.  So the statement below
has two orders: that of the calls, which decides what the graph becomes, and that of the ends, which
decides what failure is reported.

There is no deadline here.
-/

namespace InstanceHierarchy

open Relation Environment

/-! ## Steps -/

/-- The steps on sets of ids, with what each of them is told besides the ids. -/
inductive IdStep where
  | cloneSources (key : HierarchyKey) (codeList : Id) (hasData : Bool)
  | relateSources (key : HierarchyKey)
  | copyOrder (codeList : Id)
  | unlinkSources
  | countChildrenOf

namespace IdStep

/-- The mutation for some of the ids. -/
def mutation : IdStep → List Id → Mutation
  | cloneSources key codeList hasData => fun ids => .cloneSources key codeList ids hasData
  | relateSources key => .relateSources key
  | copyOrder codeList => .copyOrder codeList
  | unlinkSources => .unlinkSources
  | countChildrenOf => .countChildrenOf

/-- The method by which the mutations are sent. -/
def method : IdStep → Method
  | relateSources _ => .edges
  | _ => .mutation

/-- Take the step with a backend. -/
def run (b : Backend) (ids : TextSet) : IdStep → StoreM Unit
  | cloneSources key codeList hasData => b.cloneSources key codeList ids hasData
  | relateSources key => b.relateSources key ids
  | copyOrder codeList => b.copyOrder codeList ids
  | unlinkSources => b.unlinkSources ids
  | countChildrenOf => b.countChildrenOf ids

theorem sends_method (step : IdStep) : Graph.Sends step.method := by
  cases step with
  | relateSources key => exact Or.inr rfl
  | _ => exact Or.inl rfl

theorem run_gremlin (reading writing : BatchScheduler) (ids : TextSet) (step : IdStep) :
    step.run (.gremlin reading writing) ids =
      Backend.mutateIds writing step.method ids step.mutation := by
  cases step <;> rfl

end IdStep

/-- The statement that sends a mutation. -/
def Mutation.statement (m : Mutation) : Statement := .of .gremlin (.mutation m)

/-! ## Scripts of errors -/

/-- What becomes of a call that is answered with an error instead of being carried out, or that is
carried out. -/
def Fate.ofError? : Option StoreError → Fate
  | none => .carriedOut
  | some e => .refused e

/-- The trouble in which a store answers calls with the errors of a script, instead of carrying
them out. -/
def Trouble.refusing (script : Nat → Option StoreError) : Trouble :=
  ⟨fun n => .ofError? (script n), fun _ => false⟩

/-- A call with a mutation, and the error that it was answered with instead of being carried out. -/
structure MutationCall where
  mutation : Mutation
  error? : Option StoreError

namespace MutationCall

/-- What a store records of the call. -/
def recorded (c : MutationCall) : Operation × Fate :=
  (.mutation c.mutation, .ofError? c.error?)

/-- The mutation, if it was carried out. -/
def carriedOut? (c : MutationCall) : Option Mutation :=
  match c.error? with
  | none => some c.mutation
  | some _ => none

/-- This is how the call ended. -/
structure Ended {m : Method} (c : MutationCall) (e : Completion m) : Prop where
  statement : e.statement = c.mutation.statement
  failed : ∀ error, c.error? = some error → e.result = some (.error error)
  carriedOut : c.error? = none → ∃ reply, e.result = some (.ok reply)

/-- What a script answers calls that are made one after another, when so many were made before. -/
def answered (script : Nat → Option StoreError) : Nat → List Mutation → List MutationCall
  | _, [] => []
  | made, m :: rest => ⟨m, script made⟩ :: answered script (made + 1) rest

end MutationCall

namespace Trouble

variable (script : Nat → Option StoreError) {method : Method}

/-- One call. -/
theorem refusing_call (hm : Graph.Sends method) (m : Mutation) (s : TroubledStore) :
    let c : MutationCall := ⟨m, script s.record.length⟩
    let r := (refusing script).environment.call method m.statement s
    c.Ended (m := method) ⟨m.statement, some r.1⟩ ∧
      r.2 = ⟨s.graph.mutateAll c.carriedOut?.toList, s.record ++ [c.recorded]⟩ := by
  intro c r
  have hr : r = (refusing script).call method m.statement s := rfl
  have hfate : (refusing script).fate s.record.length = .ofError? c.error? := rfl
  rw [hr, call, hfate]
  cases herror : c.error? with
  | none =>
      obtain ⟨reply, hreply⟩ := s.graph.call_mutation hm m _
      have hcall : s.graph.call method m.statement = _ := hreply
      rw [hcall]
      refine ⟨⟨rfl, fun e he => ?_, fun _ => ⟨reply, rfl⟩⟩, ?_⟩
      · rw [herror] at he
        cases he
      · have hcarried : c.carriedOut? = some m := by rw [MutationCall.carriedOut?, herror]
        have hrecorded : c.recorded = (.mutation m, .carriedOut) := by
          rw [MutationCall.recorded, herror]
          rfl
        rw [hcarried, hrecorded]
        rfl
  | some e =>
      refine ⟨⟨rfl, fun e' he => ?_, fun hnone => ?_⟩, ?_⟩
      · rw [herror] at he
        cases he
        rfl
      · rw [herror] at hnone
        cases hnone
      · have hcarried : c.carriedOut? = none := by rw [MutationCall.carriedOut?, herror]
        have hrecorded : c.recorded = (.mutation m, .refused e) := by
          rw [MutationCall.recorded, herror]
          rfl
        rw [hcarried, hrecorded]
        rfl

/-- Calls one after another. -/
theorem refusing_callAll (hm : Graph.Sends method) (mutations : List Mutation)
    (s : TroubledStore) :
    let calls := MutationCall.answered script s.record.length mutations
    let r := (refusing script).environment.callAll method
      (mutations.map Mutation.statement) s
    List.Forall₂ MutationCall.Ended calls r.1 ∧
      r.2 = ⟨s.graph.mutateAll (calls.filterMap MutationCall.carriedOut?),
        s.record ++ calls.map MutationCall.recorded⟩ := by
  induction mutations generalizing s with
  | nil => exact ⟨.nil, by simp [MutationCall.answered, callAll, Graph.mutateAll]⟩
  | cons m rest ih =>
      obtain ⟨hended, hstore⟩ := refusing_call script hm m s
      have hintime : (refusing script).environment.expired s = false := rfl
      simp only [List.map_cons, callAll, hintime, Bool.false_eq_true, if_false,
        MutationCall.answered]
      rw [hstore]
      obtain ⟨hrest, hstore'⟩ := ih
        ⟨s.graph.mutateAll (MutationCall.carriedOut? ⟨m, script s.record.length⟩).toList,
          s.record ++ [MutationCall.recorded ⟨m, script s.record.length⟩]⟩
      rw [List.length_append, List.length_singleton] at hrest hstore'
      refine ⟨.cons hended hrest, ?_⟩
      rw [hstore']
      simp only [List.append_assoc, List.singleton_append, List.filterMap_cons]
      cases MutationCall.carriedOut? ⟨m, script s.record.length⟩ <;> rfl

end Trouble

/-! ## What a batch of calls comes to -/

/-- Every mutation is sent once, in some order, and each is carried out unless the script says that
it is not.  What the whole comes to is told by the calls that ended, in the order in which they
did. -/
structure Covers {method : Method} (script : Nat → Option StoreError) (mutations : List Mutation)
    (g : Graph) (order : List Mutation) (ends : List (Completion method))
    (result : Except StoreError Unit) (s : TroubledStore) : Prop where
  once : order.Perm mutations
  record : s.record = (MutationCall.answered script 0 order).map MutationCall.recorded
  graph : s.graph =
    g.mutateAll ((MutationCall.answered script 0 order).filterMap MutationCall.carriedOut?)
  /-- Each end is that of a call. -/
  ended : ∃ calls, calls.Perm (MutationCall.answered script 0 order) ∧
    List.Forall₂ MutationCall.Ended calls ends
  success : result = .ok () ↔ ∀ c ∈ MutationCall.answered script 0 order, c.error? = none
  /-- The failure is that of the call that ended first among those that failed. -/
  failure : ∀ reported, result = .error reported → ∃ before c after e,
    ends = before ++ c :: after ∧ (∀ c' ∈ before, ∃ reply, c'.result = some (.ok reply)) ∧
      c.result = some (.error e) ∧ e.ReportedWith c.statement.text reported

namespace Completion

variable {m : Method} {c : Completion m}

/-- The failure that a call for its effect leaves, if it does not succeed. -/
def failure? (c : Completion m) : Option StoreError :=
  (c.chunkEnd fun _ => .ok (Table.empty : Table Unit)).error?

theorem failure?_of_ok {reply : m.Reply} (h : c.result = some (.ok reply)) : c.failure? = none := by
  rw [failure?, chunkEnd, h]
  rfl

theorem failure?_of_error {e : StoreError} (h : c.result = some (.error e)) :
    c.failure? = some (e.withStatement c.statement.text) := by
  rw [failure?, chunkEnd, h]
  rfl

end Completion

namespace StoreM

variable {m : Method} {ends : List (Completion m)} {batches : Nat}

/-- What calls for their effects come to when they have ended. -/
def sent (batches : Nat) (ends : List (Completion m)) : Except StoreError Unit :=
  (BatchOutcome.ofEnds batches (ends.map (·.chunkEnd fun _ =>
    .ok (Table.empty : Table Unit)))).toExcept.map fun _ => ()

theorem run_sendAll (writing : BatchScheduler) (statements : List Statement) :
    (StoreM.sendAll writing m statements).run =
      (Program.pool m (writing.workersFor statements.length) statements .pure).bind
        fun ends => .pure (sent statements.length ends) := by
  show Program.pool _ _ _ _ = Program.pool _ _ _ _
  congr 1
  funext ends
  show Program.bind (.pure (BatchOutcome.ofEnds statements.length _).toExcept) _ =
    .pure ((BatchOutcome.ofEnds statements.length _).toExcept.map _)
  generalize (BatchOutcome.ofEnds statements.length _).toExcept = outcome
  cases outcome <;> rfl

theorem errors_ends (batches : Nat) (ends : List (Completion m)) :
    (BatchOutcome.ofEnds batches (ends.map (·.chunkEnd fun _ =>
      .ok (Table.empty : Table Unit)))).errors = ends.filterMap Completion.failure? := by
  rw [BatchOutcome.errors_ofEnds, List.filterMap_map]
  rfl

theorem sent_eq_ok : sent batches ends = .ok () ↔ ∀ c ∈ ends, c.failure? = none := by
  rw [← List.filterMap_eq_nil_iff, ← errors_ends batches, sent, BatchOutcome.toExcept]
  split <;> simp [Except.map, *]

theorem sent_eq_error {e : StoreError} : sent batches ends = .error e ↔
    ∃ before c after, ends = before ++ c :: after ∧ c.failure? = some e ∧
      ∀ c' ∈ before, c'.failure? = none := by
  rw [← List.findSome?_eq_some_iff, ← List.head?_filterMap, ← errors_ends batches, sent,
    BatchOutcome.toExcept]
  split <;> simp [Except.map, *]

end StoreM

namespace MutationCall

variable {m : Method} {c : MutationCall} {calls : List MutationCall} {e : Completion m}
  {ends : List (Completion m)}

theorem Ended.failure?_eq_none (h : c.Ended e) : e.failure? = none ↔ c.error? = none := by
  cases herror : c.error? with
  | none =>
      obtain ⟨reply, hreply⟩ := h.carriedOut herror
      simp [Completion.failure?_of_ok hreply]
  | some error => simp [Completion.failure?_of_error (h.failed error herror)]

/-- No end is a failure if no call was answered with an error. -/
theorem failure?_eq_none_iff (h : List.Forall₂ Ended calls ends) :
    (∀ e ∈ ends, e.failure? = none) ↔ ∀ c ∈ calls, c.error? = none := by
  induction h with
  | nil => simp
  | cons hc _ ih => rw [List.forall_mem_cons, List.forall_mem_cons, ih, hc.failure?_eq_none]

theorem exists_ended (h : List.Forall₂ Ended calls ends) (he : e ∈ ends) :
    ∃ c ∈ calls, c.Ended e := by
  induction h with
  | nil => cases he
  | cons hc _ ih =>
      rcases List.mem_cons.1 he with rfl | he
      · exact ⟨_, List.mem_cons_self, hc⟩
      · obtain ⟨c, hmem, hc⟩ := ih he
        exact ⟨c, List.mem_cons_of_mem _ hmem, hc⟩

/-- Of a call that ended it is known whether it was carried out. -/
theorem Ended.cases (h : c.Ended e) :
    (e.failure? = none ∧ ∃ reply, e.result = some (.ok reply)) ∨
      ∃ error, e.result = some (.error error) ∧
        e.failure? = some (error.withStatement e.statement.text) := by
  cases herror : c.error? with
  | none => exact Or.inl ⟨h.failure?_eq_none.2 herror, h.carriedOut herror⟩
  | some error =>
      have hresult := h.failed error herror
      exact Or.inr ⟨error, hresult, Completion.failure?_of_error hresult⟩

end MutationCall

/-- However the program is carried out, on workers of a scheduler and with a store that answers the
errors of a script, it makes calls with the mutations, and it comes to what they come to. -/
def SendsEach (script : Nat → Option StoreError) (writing : BatchScheduler) (method : Method)
    (mutations : List Mutation) (g : Graph) (p : StoreM Unit) : Prop :=
  let statements := mutations.map Mutation.statement
  (Trouble.refusing script).environment.Yields p.run ⟨g, []⟩ fun result s =>
    ∃ (ends : List (Completion method)) (order : List Mutation),
      ReflTransGen (Trouble.refusing script).environment.Solo
        (.pool method (writing.workersFor statements.length) statements .pure, ⟨g, []⟩)
        (.pure ends, s) ∧
      Covers script mutations g order ends result s

theorem sendsEach_sendAll {method : Method} (hm : Graph.Sends method)
    (script : Nat → Option StoreError) (writing : BatchScheduler) (mutations : List Mutation)
    (g : Graph) : SendsEach script writing method mutations g
      (StoreM.sendAll writing method (mutations.map Mutation.statement)) := by
  unfold SendsEach
  rw [StoreM.run_sendAll]
  refine (yields_reached _ _ _).imp fun result s hreached => ?_
  obtain ⟨ends, t, hpool, hpure⟩ := reached_of_bind hreached
  cases eq_of_pure_reached hpure
  obtain ⟨sent, hsent, hends, hs⟩ := pool_reached hpool
  obtain ⟨order, rfl, horder⟩ := exists_map_of_perm hsent
  obtain ⟨hended, hstore⟩ := Trouble.refusing_callAll script hm order ⟨g, []⟩
  obtain ⟨calls, hcalls, hperm⟩ := List.perm_comp_forall₂ hends hended.flip
  rw [hstore] at hs
  refine ⟨ends, order, hpool, horder, ?_, ?_, ⟨calls, hperm, hcalls.flip⟩, ?_, ?_⟩
  · rw [hs]
    rfl
  · rw [hs]
    rfl
  · rw [StoreM.sent_eq_ok, MutationCall.failure?_eq_none_iff hcalls.flip]
    exact forall_congr' fun c => by rw [hperm.mem_iff]; rfl
  · intro reported hreported
    obtain ⟨before, c, after, rfl, hc, hbefore⟩ := StoreM.sent_eq_error.1 hreported
    have hcases : ∀ e ∈ before ++ c :: after, _ := fun e he =>
      (MutationCall.exists_ended hcalls.flip he).elim fun _ h => h.2.cases
    rcases hcases c (List.mem_append_right _ List.mem_cons_self) with
      ⟨hnone, -⟩ | ⟨e, hresult, hfailure⟩
    · rw [hnone] at hc
      cases hc
    · rw [hc] at hfailure
      refine ⟨before, c, after, e, rfl, fun c' hc' => ?_, hresult, ?_⟩
      · rcases hcases c' (List.mem_append_left _ hc') with ⟨-, hreply⟩ | ⟨_, -, hfailure'⟩
        · exact hreply
        · rw [hbefore c' hc'] at hfailure'
          cases hfailure'
      · rw [Option.some.inj hfailure]
        exact e.reportedWith_withStatement _

/-- A step on a set of ids sends each slice of the set once, and the step that links codes sends
each of its entries once, whatever errors the store answers: none is sent again or left out after a
failure, and the graph becomes what the mutations that were carried out make of it. -/
theorem steps_send_each (script : Nat → Option StoreError) (reading : BatchScheduler)
    (batchSize maxWorkers : Nat) (g : Graph) :
    let writing := BatchScheduler.of batchSize maxWorkers
    (∀ (step : IdStep) (ids : TextSet),
      ids.toList.Pairwise (· < ·) ∧
      Pool.Cut (max batchSize 1) ids.toList (writing.split ids.toList) ∧
      SendsEach script writing step.method ((writing.split ids.toList).map step.mutation) g
        (step.run (.gremlin reading writing) ids)) ∧
    ∀ (codeList : Id) (codes : CodesById),
      codes.keys.Nodup ∧
      SendsEach script writing .mutation (codes.entries.map fun e => .linkCode codeList e.1 e.2) g
        (Backend.linkCodes (.gremlin reading writing) codeList codes) := by
  intro writing
  refine ⟨fun step ids => ⟨?_, Pool.cut_split batchSize maxWorkers ids.toList, ?_⟩,
    fun codeList codes => ⟨codes.nodup_keys, ?_⟩⟩
  · exact List.pairwise_map.2 ids.ordered
  · rw [step.run_gremlin]
    have hsends := sendsEach_sendAll step.sends_method script writing
      ((writing.split ids.toList).map step.mutation) g
    rw [List.map_map] at hsends
    exact hsends
  · have hsends := sendsEach_sendAll (Or.inl rfl) script writing
      (codes.entries.map fun e => .linkCode codeList e.1 e.2) g
    rw [List.map_map] at hsends
    exact hsends

end InstanceHierarchy
