import InstanceHierarchy.Context
import InstanceHierarchy.Proofs.SourceLookup
import InstanceHierarchy.Proofs.Strictness
import InstanceHierarchy.Proofs.Workers
import InstanceHierarchy.Store.Script

/-!
# Builds and their deadlines

A store is watched under a clock: every call is noted together with the time at which it is made.
No mutation of a build is made when the deadline of the build's context has passed, however the
store answers and whenever the deadline passes.  A build of which no call fails comes to what it
comes to without a deadline, or to the failure that says that the deadline has passed.

The clock tells the time by the number of calls and pauses there have been, so no time passes
between a look at it and a call that follows at once.  Nothing else is asked of it; it need not even
go forwards.  Reads are made after the deadline too.
-/

namespace InstanceHierarchy

open Relation Environment

/-! ## Stores under a clock -/

/-- A store and what has been seen of it. -/
structure Watched (σ : Type) where
  store : σ
  /-- The number of calls and pauses. -/
  events : Nat
  /-- The calls, oldest first, each with the time at which it was made. -/
  log : List (Received × Nat)

namespace Watched

/-- A store of which nothing has been seen. -/
def start (store : σ) : Watched σ := ⟨store, 0, []⟩

end Watched

/-- A store that is called in a context, under a clock. -/
def Environment.watched (env : Environment σ) (context : CallContext) (clock : Nat → Nat) :
    Environment (Watched σ) where
  call m st s :=
    ((env.call m st s.store).1, ⟨(env.call m st s.store).2, s.events + 1,
      s.log ++ [(⟨m, st⟩, clock s.events)]⟩)
  expired s := context.isExpired (clock s.events)
  pause ms s := ⟨env.pause ms s.store, s.events + 1, s.log⟩

/-- The call may change the graph. -/
def Received.Mutates (r : Received) : Prop :=
  r.method = .mutation ∨ ∃ m, r.statement.operation = .mutation m

/-- No mutation was made when the deadline had passed. -/
def Watched.InTime (context : CallContext) (s : Watched σ) : Prop :=
  ∀ e ∈ s.log, e.1.Mutates → context.isExpired e.2 = false

/-- The deadline had passed by the clock at some time so far. -/
def Watched.Overrun (context : CallContext) (clock : Nat → Nat) (s : Watched σ) : Prop :=
  ∃ n ≤ s.events, context.isExpired (clock n) = true

namespace Program

variable {α β : Type} {σ : Type}

/-! ## Looking before a mutation -/

/-- A mutation is called only after a look at the deadline that found time left, with nothing in
between.  Those of a pool are, for its workers look. -/
def Punctual (looked : Bool) : Program α → Prop
  | .pure _ => True
  | .call m st next => (Received.Mutates ⟨m, st⟩ → looked = true) ∧ ∀ r, Punctual false (next r)
  | .pool _ _ _ next => ∀ ends, Punctual false (next ends)
  | .expired next => Punctual false (next true) ∧ Punctual true (next false)
  | .pause _ next => Punctual false next

theorem Punctual.mono {p : Program α} (h : p.Punctual false) (looked : Bool) :
    p.Punctual looked := by
  cases p with
  | call m st next => exact ⟨fun hm => absurd (h.1 hm) Bool.false_ne_true, h.2⟩
  | pure a => exact h
  | pool m workers statements next => exact h
  | expired next => exact h
  | pause ms next => exact h

theorem Punctual.bind {looked : Bool} {p : Program α} (h : p.Punctual looked)
    {f : α → Program β} (hf : ∀ a, (f a).Punctual false) : (p.bind f).Punctual looked := by
  induction p generalizing looked with
  | pure a => exact (hf a).mono looked
  | call m st next ih => exact ⟨h.1, fun r => ih r (h.2 r)⟩
  | pool m workers statements next ih => exact fun ends => ih ends (h ends)
  | expired next ih => exact ⟨ih true h.1, ih false h.2⟩
  | pause ms next ih => exact ih h

/-- What has been done so far was in time, and what is left looks before it mutates. -/
def Minds (context : CallContext) (env : Environment (Watched σ)) (p : Program α)
    (s : Watched σ) : Prop :=
  s.InTime context ∧ ∃ looked, p.Punctual looked ∧ (looked = true → env.expired s = false)

variable {env : Environment σ} {context : CallContext} {clock : Nat → Nat}

theorem inTime_call {s : Watched σ} (h : s.InTime context) {m : Method} {st : Statement}
    (hintime : Received.Mutates ⟨m, st⟩ → (env.watched context clock).expired s = false) :
    ((env.watched context clock).call m st s).2.InTime context := by
  intro e he hmutates
  rcases List.mem_append.1 he with he | he
  · exact h e he hmutates
  · obtain rfl := List.mem_singleton.1 he
    exact hintime hmutates

theorem Minds.move {p p' : Program α} {s s' : Watched σ}
    (h : p.Minds context (env.watched context clock) s)
    (hmove : (env.watched context clock).Move p s p' s') :
    p'.Minds context (env.watched context clock) s' := by
  obtain ⟨hs, looked, hp, hlooked⟩ := h
  cases hmove with
  | call => exact ⟨inTime_call hs fun hm => hlooked (hp.1 hm), false, hp.2 _, nofun⟩
  | work i hi free intime place =>
      exact ⟨inTime_call hs fun _ => intime, false, fun ends => hp _, nofun⟩
  | skip i hi free late place => exact ⟨hs, false, fun ends => hp _, nofun⟩
  | close => exact ⟨hs, false, hp [], nofun⟩
  | look =>
      cases hlate : (env.watched context clock).expired s with
      | true => exact ⟨hs, false, hp.1, nofun⟩
      | false => exact ⟨hs, true, hp.2, fun _ => hlate⟩
  | pause => exact ⟨hs, false, hp, nofun⟩

/-- Wherever a punctual program has come to, its mutations were in time. -/
theorem Punctual.inTime {p : Program α} (h : p.Punctual false) (s : σ)
    {c : Program α × Watched σ}
    (hmoves : ReflTransGen (env.watched context clock).Solo (p, .start s) c) :
    c.2.InTime context := by
  have hminds : c.1.Minds context (env.watched context clock) c.2 := by
    induction hmoves with
    | refl => exact ⟨fun _ he => absurd he List.not_mem_nil, false, h, nofun⟩
    | tail _ hmove ih => exact ih.move hmove
  exact hminds.1

theorem events_move {p p' : Program α} {s s' : Watched σ}
    (hmove : (env.watched context clock).Move p s p' s') : s.events ≤ s'.events := by
  cases hmove with
  | call => exact Nat.le_succ _
  | work => exact Nat.le_succ _
  | pause => exact Nat.le_succ _
  | skip => exact Nat.le_refl _
  | close => exact Nat.le_refl _
  | look => exact Nat.le_refl _

/-- Calls and pauses that have been made stay made. -/
theorem events_moves {c c' : Program α × Watched σ}
    (hmoves : ReflTransGen (env.watched context clock).Solo c c') :
    c.2.events ≤ c'.2.events := by
  induction hmoves with
  | refl => exact Nat.le_refl _
  | tail _ hmove ih => exact Nat.le_trans ih (events_move hmove)

/-! ## Failing only for the deadline -/

/-- The ends of some of the calls of a pool, which were answered as some graph would answer them, or
left out. -/
def Answered {m : Method} (statements : List Statement) (ends : List (Completion m)) : Prop :=
  ∀ c ∈ ends, c.statement ∈ statements ∧
    ∀ r, c.result = some r → ∃ g : Graph, r = (g.call m c.statement).1

/-- Some call was left out. -/
def leftOut {m : Method} (ends : List (Completion m)) : Bool := ends.any (·.result.isNone)

/-- The failure says that the deadline has passed. -/
def TooLate (r : Except StoreError α) : Prop := ∃ e, r = .error e ∧ e.root = .deadlineExceeded

/-- As long as calls are answered as some graph would answer them, the program fails when the
deadline has been seen to have passed, and only then. -/
def Timely (late : Bool) : Program (Except StoreError α) → Prop
  | .pure r => if late then TooLate r else ∃ a, r = .ok a
  | .call m st next => ∀ g : Graph, Timely late (next (g.call m st).1)
  | .pool _ _ statements next =>
      ∀ ends, Answered statements ends → Timely (late || leftOut ends) (next ends)
  | .expired next => Timely true (next true) ∧ Timely late (next false)
  | .pause _ next => Timely late next

theorem Timely.bind {late : Bool} {p : Program (Except StoreError α)} (h : p.Timely late)
    {f : Except StoreError α → Program (Except StoreError β)}
    (hok : ∀ a, (f (.ok a)).Timely false)
    (herror : ∀ e : StoreError, e.root = .deadlineExceeded → (f (.error e)).Timely true) :
    (p.bind f).Timely late := by
  induction p generalizing late with
  | pure r =>
      cases late with
      | true =>
          obtain ⟨e, rfl, he⟩ := h
          exact herror e he
      | false =>
          obtain ⟨a, rfl⟩ := h
          exact hok a
  | call m st next ih => exact fun g => ih _ (h g)
  | pool m workers statements next ih => exact fun ends hends => ih ends (h ends hends)
  | expired next ih => exact ⟨ih true h.1, ih false h.2⟩
  | pause ms next ih => exact ih h

theorem Answered.mono {m : Method} {statements statements' : List Statement}
    {ends : List (Completion m)} (h : Answered statements ends) (hsub : statements ⊆ statements') :
    Answered statements' ends := fun c hc => ⟨hsub (h c hc).1, (h c hc).2⟩

theorem Answered.cons {m : Method} {statements : List Statement} {ends : List (Completion m)}
    (h : Answered statements ends) {st : Statement} (hst : st ∈ statements)
    (result : Option (Result m))
    (hresult : ∀ r, result = some r → ∃ g : Graph, r = (g.call m st).1) :
    Answered statements (⟨st, result⟩ :: ends) := by
  intro c hc
  rcases List.mem_cons.1 hc with rfl | hc
  · exact ⟨hst, hresult⟩
  · exact h c hc

/-- One more call ends, at any place among the ends. -/
theorem Answered.insert {m : Method} {statements : List Statement} {i : Nat}
    (hi : i < statements.length) {ends : List (Completion m)}
    (h : Answered (statements.eraseIdx i) ends) (result : Option (Result m))
    (hresult : ∀ r, result = some r → ∃ g : Graph, r = (g.call m statements[i]).1) (place : Nat) :
    Answered statements (ends.take place ++ ⟨statements[i], result⟩ :: ends.drop place) := by
  have hall : Answered statements (⟨statements[i], result⟩ :: ends) :=
    (h.mono fun _ => List.mem_of_mem_eraseIdx).cons (List.getElem_mem hi) result hresult
  intro c hc
  rcases List.mem_append.1 hc with hc | hc
  · exact hall c (List.mem_cons_of_mem _ (List.mem_of_mem_take hc))
  · rcases List.mem_cons.1 hc with rfl | hc
    · exact hall _ List.mem_cons_self
    · exact hall c (List.mem_cons_of_mem _ (List.mem_of_mem_drop hc))

theorem leftOut_insert {m : Method} (ends : List (Completion m)) (c : Completion m) (place : Nat) :
    leftOut (ends.take place ++ c :: ends.drop place) = (c.result.isNone || leftOut ends) := by
  unfold leftOut
  conv_rhs => rw [← List.take_append_drop place ends]
  simp only [List.any_append, List.any_cons]
  exact Bool.or_left_comm _ _ _

variable {late : Bool} {p p' : Program (Except StoreError α)} {s s' : Watched Graph}

/-- A move of a timely program finds that the deadline has passed, or it is a move with the graph
alone. -/
theorem Timely.move (h : p.Timely late)
    (hmove : (Environment.graph.watched context clock).Move p s p' s') :
    (p'.Timely true ∧ context.isExpired (clock s.events) = true) ∨
      (p'.Timely late ∧ Environment.graph.Move p s.store p' s'.store) := by
  cases hmove with
  | call => exact Or.inr ⟨h s.store, .call⟩
  | @work m workers statements next _ i hi free _ place =>
      refine Or.inr ⟨fun ends hends => ?_, .work i hi free rfl place⟩
      have hnext := h _ (hends.insert hi (some _)
        (fun r hr => ⟨s.store, (Option.some.inj hr).symm⟩) place)
      rwa [leftOut_insert] at hnext
  | skip i hi free hlate place =>
      refine Or.inl ⟨fun ends hends => ?_, hlate⟩
      have hnext := h _ (hends.insert hi none nofun place)
      rwa [leftOut_insert, Option.isNone_none, Bool.true_or, Bool.or_true] at hnext
  | close =>
      have hnext := h [] fun _ hc => absurd hc List.not_mem_nil
      rw [show leftOut (m := _) [] = false from rfl, Bool.or_false] at hnext
      exact Or.inr ⟨hnext, .close⟩
  | look =>
      cases hlate : (Environment.graph.watched context clock).expired s with
      | true => exact Or.inl ⟨h.1, hlate⟩
      | false => exact Or.inr ⟨h.2, .look⟩
  | pause => exact Or.inr ⟨h, .pause⟩

/-- What a timely program comes to under a clock is what it can come to with the graph alone, unless
the deadline has passed. -/
theorem Timely.moves {c c' : Program (Except StoreError α) × Watched Graph}
    (hmoves : ReflTransGen (Environment.graph.watched context clock).Solo c c')
    (h : c.1.Timely late) {r : Except StoreError α} (hend : c'.1 = .pure r) :
    TooLate r ∧ (late = false → c'.2.Overrun context clock) ∨
      late = false ∧ (∃ a, r = .ok a) ∧
        ReflTransGen Environment.graph.Solo (c.1, c.2.store) (c'.1, c'.2.store) := by
  induction hmoves using ReflTransGen.head_induction_on generalizing late with
  | refl =>
      rw [hend] at h
      cases late with
      | true => exact Or.inl ⟨h, nofun⟩
      | false => exact Or.inr ⟨rfl, h, .refl⟩
  | @head c c₁ hmove hrest ih =>
      rcases h.move hmove with ⟨hnext, hlate⟩ | ⟨hnext, hstep⟩
      · have hevents : c.2.events ≤ c'.2.events := events_moves (.head hmove hrest)
        rcases ih hnext with ⟨htooLate, -⟩ | ⟨hfalse, -⟩
        · exact Or.inl ⟨htooLate, fun _ => ⟨_, hevents, hlate⟩⟩
        · cases hfalse
      · exact (ih hnext).imp_right fun ⟨hlate, hok, hrest⟩ => ⟨hlate, hok, .head hstep.solo hrest⟩

/-- Calls made on one thread are answered by graphs, and they do what they do with the graph alone
unless some are left out. -/
theorem callAll_watched (context : CallContext) (clock : Nat → Nat) (m : Method)
    (statements : List Statement) (s : Watched Graph) :
    Answered statements ((Environment.graph.watched context clock).callAll m statements s).1 ∧
      (leftOut ((Environment.graph.watched context clock).callAll m statements s).1 = false →
        Environment.graph.callAll m statements s.store =
          (((Environment.graph.watched context clock).callAll m statements s).1,
            ((Environment.graph.watched context clock).callAll m statements s).2.store)) := by
  induction statements generalizing s with
  | nil => exact ⟨fun _ hc => absurd hc List.not_mem_nil, fun _ => rfl⟩
  | cons st rest ih =>
      unfold callAll
      cases hlate : (Environment.graph.watched context clock).expired s with
      | true =>
          rw [if_pos rfl]
          obtain ⟨hanswered, -⟩ := ih s
          refine ⟨(hanswered.mono (List.subset_cons_self st rest)).cons List.mem_cons_self none
            fun r hr => ?_, fun hleft => ?_⟩
          · cases hr
          · exact absurd hleft.symm Bool.false_ne_true
      | false =>
          rw [if_neg Bool.false_ne_true]
          obtain ⟨hanswered, hsame⟩ :=
            ih ((Environment.graph.watched context clock).call m st s).2
          refine ⟨(hanswered.mono (List.subset_cons_self st rest)).cons List.mem_cons_self (some _)
            fun r hr => ⟨s.store, (Option.some.inj hr).symm⟩, fun hleft => ?_⟩
          exact congrArg (fun r => (⟨st, some (s.store.call m st).1⟩ :: r.1, r.2)) (hsame hleft)

/-- On one thread a timely program fails for the deadline, or it comes to what it comes to with the
graph alone. -/
theorem Timely.run (h : p.Timely late) (context : CallContext) (clock : Nat → Nat)
    (s : Watched Graph) :
    TooLate ((Environment.graph.watched context clock).run p s).1 ∨ late = false ∧
      (∃ a, ((Environment.graph.watched context clock).run p s).1 = .ok a) ∧
      Environment.graph.run p s.store = (((Environment.graph.watched context clock).run p s).1,
        ((Environment.graph.watched context clock).run p s).2.store) := by
  induction p generalizing s late with
  | pure r =>
      cases late with
      | true => exact Or.inl h
      | false => exact Or.inr ⟨rfl, h, rfl⟩
  | call m st next ih =>
      exact ih _ (h s.store) ((Environment.graph.watched context clock).call m st s).2
  | pool m workers statements next ih =>
      obtain ⟨hanswered, hsame⟩ := callAll_watched context clock m statements s
      have hnext := h _ hanswered
      unfold Environment.run
      -- calls that were left out make the program fail for the deadline
      cases hleft : leftOut
          ((Environment.graph.watched context clock).callAll m statements s).1 with
      | true =>
          rw [hleft, Bool.or_true] at hnext
          exact (ih _ hnext _).imp_right fun hok => absurd hok.1 (by decide)
      | false =>
          rw [hleft, Bool.or_false] at hnext
          rw [hsame hleft]
          exact ih _ hnext _
  | expired next ih =>
      unfold Environment.run
      cases hlate : (Environment.graph.watched context clock).expired s with
      | true => exact (ih true h.1 s).imp_right fun hok => absurd hok.1 (by decide)
      | false => exact ih false h.2 s
  | pause ms next ih => exact ih h _

end Program

/-! ## Calls that look and calls that are answered -/

namespace StoreM

variable {α : Type}

theorem hereditary_punctual : Hereditary fun _ p => p.run.Punctual false := by
  refine ⟨fun _ => trivial, fun hp hf => Program.Punctual.bind hp fun r => ?_⟩
  cases r with
  | ok a => exact hf a
  | error e => exact trivial

theorem hereditary_timely : Hereditary fun _ p => p.run.Timely false :=
  ⟨fun a => ⟨a, rfl⟩, fun hp hf => Program.Timely.bind hp hf fun e he => ⟨e, rfl, he⟩⟩

/-- A query looks at no deadline and need not. -/
theorem punctual_ask (r : Reader) {m : Method} (hm : m ≠ .mutation) (q : Query) :
    (r.ask m q).run.Punctual false :=
  ⟨fun h => (h.elim hm nofun).elim, fun _ => trivial⟩

/-- A query that the graph can answer is answered. -/
theorem timely_ask (r : Reader) {m : Method} {q : Query}
    (hfit : ∀ g : Graph, ∃ reply, m.fit? (g.answer q) = some reply) :
    (r.ask m q).run.Timely false := by
  intro g
  obtain ⟨reply, hreply⟩ := hfit g
  have hcall : g.call m (.of r.dialect (.query q)) = (.ok reply, g) := Graph.call_query hreply _
  rw [hcall]
  exact ⟨reply, rfl⟩

/-- Before every attempt there is a look at the deadline. -/
theorem punctual_callRetrying (policy : RetryPolicy) (m : Method) (st : Statement) :
    (callRetrying policy m st).run.Punctual false := by
  have key : ∀ k n, policy.maxAttempts - n = k → Program.Punctual false
      (policy.runFrom st.text (fun _ => (Program.call m st .pure : Program (Result m))) n) := by
    -- by induction on the number of the attempts that are left
    intro k
    induction k using Nat.strongRecOn with
    | ind k ih =>
        intro n hk
        rw [RetryPolicy.runFrom]
        refine ⟨trivial, fun _ => rfl, fun r => ?_⟩
        cases r with
        | ok reply => exact trivial
        | error e =>
            show Program.Punctual false (if _again : policy.shouldRetry e n then _ else _)
            by_cases hagain : policy.shouldRetry e n
            · rw [dif_pos hagain]
              have hless : policy.maxAttempts - (n + 1) < k := by
                simp only [RetryPolicy.shouldRetry, Bool.and_eq_true, decide_eq_true_eq] at hagain
                omega
              have hnext := ih _ hless (n + 1) rfl
              by_cases hdelay : policy.delayAfter n = 0
              · rw [if_pos hdelay]
                exact hnext
              · rw [if_neg hdelay]
                exact hnext
            · rw [dif_neg hagain]
              exact trivial
  exact key _ 1 rfl

/-- A call that the graph answers is made once, or it is too late for it. -/
theorem timely_callRetrying (policy : RetryPolicy) {m : Method} {st : Statement}
    (hcall : ∀ g : Graph, ∃ reply, (g.call m st).1 = .ok reply) :
    (callRetrying policy m st).run.Timely false := by
  show Program.Timely false (policy.runFrom st.text _ 1)
  rw [RetryPolicy.runFrom]
  refine ⟨⟨_, rfl, StoreError.root_withStatement _ _⟩, fun g => ?_⟩
  obtain ⟨reply, hreply⟩ := hcall g
  rw [hreply]
  exact ⟨reply, rfl⟩

theorem punctual_callAll (scheduler : BatchScheduler) (m : Method) (statements : List Statement)
    (read : m.Reply → Except StoreError (Table α)) :
    (callAll scheduler m statements read).run.Punctual false := fun _ => trivial

theorem punctual_sendAll (scheduler : BatchScheduler) (m : Method) (statements : List Statement) :
    (sendAll scheduler m statements).run.Punctual false :=
  hereditary_punctual.bind (punctual_callAll scheduler m statements _)
    fun _ => hereditary_punctual.pure ()

/-- Calls that the graph answers as can be read make a batch that fails when some are left out. -/
theorem timely_callAll (scheduler : BatchScheduler) {m : Method} {statements : List Statement}
    {read : m.Reply → Except StoreError (Table α)}
    (hcall : ∀ st ∈ statements, ∀ g : Graph, ∃ table, (g.call m st).1.bind read = .ok table) :
    (callAll scheduler m statements read).run.Timely false := by
  intro ends hends
  have herror : ∀ c ∈ ends, (c.chunkEnd read).error? =
      if c.result.isNone then some .deadlineExceeded else none := by
    intro c hc
    obtain ⟨hst, hanswer⟩ := hends c hc
    unfold Completion.chunkEnd
    cases hresult : c.result with
    | none => rfl
    | some r =>
        obtain ⟨g, rfl⟩ := hanswer r hresult
        obtain ⟨table, htable⟩ := hcall c.statement hst g
        simp only [htable]
        rfl
  have herrors := BatchOutcome.errors_ofEnds statements.length (ends.map (·.chunkEnd read))
  cases hleft : Program.leftOut ends with
  | true =>
      obtain ⟨c, hc, hnone⟩ := List.any_eq_true.1 hleft
      have hmem : StoreError.deadlineExceeded ∈
          (ends.map (·.chunkEnd read)).filterMap ChunkEnd.error? :=
        List.mem_filterMap.2 ⟨_, List.mem_map_of_mem hc, by rw [herror c hc, if_pos hnone]⟩
      rw [← herrors] at hmem
      obtain ⟨e, he⟩ := Option.isSome_iff_exists.1 (List.isSome_head?.2 (List.ne_nil_of_mem hmem))
      refine ⟨e, BatchOutcome.toExcept_eq_error.2 he, ?_⟩
      -- the first failure is the one of a chunk that was left out, for no other chunk has one
      have hfirst := List.mem_of_head? he
      rw [herrors] at hfirst
      obtain ⟨_, hend, hcause⟩ := List.mem_filterMap.1 hfirst
      obtain ⟨c', hc', rfl⟩ := List.mem_map.1 hend
      rw [herror c' hc'] at hcause
      split at hcause
      · rw [← Option.some.inj hcause]
        rfl
      · cases hcause
  | false =>
      have hnone : ∀ c ∈ ends.map (·.chunkEnd read), c.error? = none := by
        intro _ hend
        obtain ⟨c, hc, rfl⟩ := List.mem_map.1 hend
        rw [herror c hc, if_neg (List.any_eq_false.1 hleft c hc)]
      rw [List.filterMap_eq_nil_iff.2 hnone] at herrors
      exact ⟨_, BatchOutcome.toExcept_eq_ok.2 ⟨herrors, rfl⟩⟩

theorem timely_sendAll (scheduler : BatchScheduler) {m : Method} (hm : Graph.Sends m)
    {statements : List Statement}
    (hmutations : ∀ st ∈ statements, ∃ mutation, st.operation = .mutation mutation) :
    (sendAll scheduler m statements).run.Timely false := by
  refine hereditary_timely.bind (timely_callAll scheduler fun st hst g => ?_)
    fun _ => hereditary_timely.pure ()
  obtain ⟨operation, text⟩ := st
  obtain ⟨mutation, rfl⟩ := hmutations _ hst
  obtain ⟨reply, hreply⟩ := g.call_mutation hm mutation text
  exact ⟨.empty, by rw [hreply]; rfl⟩

end StoreM

/-! ## Builds -/

namespace Backend

/-- Every mutation of a build is called after a look at the deadline. -/
theorem punctual_build (b : Backend) (cloneOrder : Bool) (key : HierarchyKey) (codeList : Id) :
    (b.build cloneOrder key codeList).run.Punctual false := by
  have hcodes : ∀ r : Reader, (r.dataCodes key).run.Punctual false :=
    fun r => StoreM.punctual_ask r (by decide) _
  have hcount : ∀ r : Reader, (r.countNodes key).run.Punctual false :=
    fun r => StoreM.punctual_ask r (by decide) _
  cases b with
  | gremlin reading writing =>
      exact StoreM.hereditary_punctual.buildFromIds reading writing cloneOrder key codeList
        (hcodes _) (fun _ => StoreM.punctual_callAll _ _ _ _)
        (fun _ => StoreM.punctual_callAll _ _ _ _) (StoreM.punctual_ask _ (by decide) _) (hcount _)
        fun m _ statements _ => StoreM.punctual_sendAll writing m statements
  | cypher retry =>
      exact StoreM.hereditary_punctual.buildBulk (.cypher retry) key codeList
        (fun _ _ => StoreM.punctual_callRetrying retry _ _) (StoreM.punctual_callRetrying retry _ _)
        (hcodes _) (hcount _)

/-- The answers to the queries of a resolver can be read. -/
theorem timely_resolve (r : Resolver) {query : List String → Query}
    (hquery : ∀ codes (g : Graph), ∃ ids, g.answer (query codes) = .rows (g.idCodeRows ids))
    (codes : List String) : (r.resolve query codes).run.Timely false := by
  refine StoreM.timely_callAll _ fun st hst g => ?_
  obtain ⟨batch, -, rfl⟩ := List.mem_map.1 hst
  obtain ⟨ids, hids⟩ := hquery batch g
  have hcall : g.call .tabular (.of r.dialect (.query (query batch))) =
      (.ok (g.idCodeRows ids), g) := Graph.call_rows hids _
  exact ⟨_, by rw [hcall]; exact readRows_idCodeRows g ids⟩

/-- When calls are answered as some graph would answer them, a build fails only for the deadline. -/
theorem timely_build (b : Backend) (cloneOrder : Bool) (key : HierarchyKey) (codeList : Id) :
    (b.build cloneOrder key codeList).run.Timely false := by
  have hcodes : ∀ r : Reader, (r.dataCodes key).run.Timely false :=
    fun r => StoreM.timely_ask r fun g => ⟨_, rfl⟩
  have hcount : ∀ r : Reader, (r.countNodes key).run.Timely false :=
    fun r => StoreM.timely_ask r fun g => ⟨_, rfl⟩
  cases b with
  | gremlin reading writing =>
      exact StoreM.hereditary_timely.buildFromIds reading writing cloneOrder key codeList (hcodes _)
        (timely_resolve _ fun _ _ => ⟨_, rfl⟩) (timely_resolve _ fun _ _ => ⟨_, rfl⟩)
        (StoreM.timely_ask _ fun g => ⟨_, rfl⟩) (hcount _)
        fun m hm statements hst => StoreM.timely_sendAll writing hm hst
  | cypher retry =>
      have hmutate : ∀ m, ((Backend.cypher retry).mutate m).run.Timely false := fun m =>
        StoreM.timely_callRetrying retry fun g =>
          (g.call_mutation (Or.inl rfl) m _).imp fun _ h => congrArg Prod.fst h
      exact StoreM.hereditary_timely.buildBulk (.cypher retry) key codeList
        (fun m _ => hmutate m) (hmutate _)        (hcodes _) (hcount _)

/-- However a store answers and whenever the deadline passes, the mutations of a build are called
before the deadline, those that are called again included.  When the store answers as the graph
does, the build gives the report that it gives without a deadline, and leaves that graph, unless the
deadline has passed: then it may fail, and the failure says so. -/
theorem build_keeps_deadline (b : Backend) (cloneOrder : Bool) (key : HierarchyKey) (codeList : Id)
    (context : CallContext) (clock : Nat → Nat) :
    (∀ {σ : Type} (env : Environment σ) (s : σ) c,
      ReflTransGen (env.watched context clock).Solo
        ((b.build cloneOrder key codeList).run, .start s) c → c.2.InTime context) ∧
    (∀ g, (graph.watched context clock).Yields (b.build cloneOrder key codeList).run (.start g)
      fun r s => Program.TooLate r ∧ s.Overrun context clock ∨ (∃ report, r = .ok report) ∧
        ReflTransGen graph.Solo ((b.build cloneOrder key codeList).run, g) (.pure r, s.store)) ∧
    ∀ g r s, (graph.watched context clock).run (b.build cloneOrder key codeList).run (.start g) =
        (r, s) →
      Program.TooLate r ∧ s.Overrun context clock ∨ (∃ report, r = .ok report) ∧
        graph.run (b.build cloneOrder key codeList).run g = (r, s.store) := by
  have htimely := timely_build b cloneOrder key codeList
  have hyields : ∀ g, (graph.watched context clock).Yields (b.build cloneOrder key codeList).run
      (.start g) fun r s => Program.TooLate r ∧ s.Overrun context clock ∨
        (∃ report, r = .ok report) ∧
          ReflTransGen graph.Solo ((b.build cloneOrder key codeList).run, g) (.pure r, s.store) :=
    fun g => (yields_reached _ _ _).imp fun r s hmoves =>
      (htimely.moves hmoves rfl).imp (fun h => ⟨h.1, h.2 rfl⟩) And.right
  refine ⟨fun env s c hmoves => (punctual_build b cloneOrder key codeList).inTime s hmoves, hyields,
    fun g r s hrun => ?_⟩
  have hend := (hyields g).run
  have hsame := htimely.run context clock (.start g)
  rw [hrun] at hend hsame
  rcases hend with hlate | ⟨⟨report, rfl⟩, -⟩
  · exact Or.inl hlate
  · rcases hsame with ⟨e, he, -⟩ | ⟨-, hok, hrun'⟩
    · cases he
    · exact Or.inr ⟨hok, hrun'⟩

end Backend
end InstanceHierarchy
