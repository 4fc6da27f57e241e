import InstanceHierarchy.Proofs.Execution
import InstanceHierarchy.Proofs.Workers
import InstanceHierarchy.Store.Batches

/-!
# Pools that call a store

The workers of a batch scheduler are met in two forms: as a pool, in which the work on a chunk may
come to anything, and as a program that makes several calls.  When the work on a chunk is a call of
a store, the two agree: whatever such a pool comes to, an execution of the program comes to, and the
same calls have ended in the same order.

A worker that finds time left begins a chunk; its call takes effect some time later, and the answer
is recorded later still, while the other workers go on.  Between the beginning and the effect the
deadline must not pass, for a program looks at the deadline when a call takes effect.
-/

namespace InstanceHierarchy

open Relation

variable {σ ι α β : Type} {m : Method}

/-- What a list holds beyond a part of it can be put into the part. -/
theorem exists_insert {xs ys rest : List β} {y : β} (h : xs.Sublist ys)
    (hperm : ys.Perm (xs ++ y :: rest)) :
    ∃ place, (xs.take place ++ y :: xs.drop place).Sublist ys := by
  classical
  have hcount : xs.count y < ys.count y := by
    rw [hperm.count_eq, List.count_append, List.count_cons_self]
    omega
  clear hperm
  induction h with
  | slnil => exact absurd hcount (Nat.lt_irrefl _)
  | @cons xs ys x hsub ih =>
      by_cases hx : x = y
      · exact ⟨0, hx ▸ hsub.cons_cons x⟩
      · rw [List.count_cons_of_ne hx] at hcount
        obtain ⟨place, hplace⟩ := ih hcount
        exact ⟨place, hplace.cons x⟩
  | @cons_cons xs ys x hsub ih =>
      rw [List.count_cons, List.count_cons] at hcount
      obtain ⟨place, hplace⟩ := ih (by omega)
      exact ⟨place + 1, hplace.cons_cons x⟩

/-! ## Pools and their calls -/

/-- A pool with a store, which the work on each chunk calls once. -/
structure CallingPool (σ ι α : Type) (m : Method) where
  pool : Pool ι α
  store : σ
  /-- The chunks in work whose calls have yet to take effect. -/
  unsent : List (List ι)
  /-- The chunks in work whose calls have taken effect, with the answers. -/
  answered : List (List ι × Result m)

namespace CallingPool

/-- A pool before its workers run. -/
def start (workers : Nat) (chunks : List (List ι)) (s : σ) : CallingPool σ ι α m :=
  ⟨.start workers chunks, s, [], []⟩

/-- What can happen next, when each chunk has a statement and the replies are read as tables. -/
inductive Event (env : Environment σ) (statement : List ι → Statement)
    (read : m.Reply → Except StoreError (Table α)) :
    CallingPool σ ι α m → CallingPool σ ι α m → Prop where
  | take {c : CallingPool σ ι α m} {chunk : List ι} {rest : List (List ι)}
      (free : 0 < c.pool.free) (waiting : c.pool.waiting = chunk :: rest) :
      Event env statement read c { c with pool := c.pool.step .take }
  | skip {c : CallingPool σ ι α m} {chunk : List ι} (i : Nat)
      (taken : c.pool.taken[i]? = some chunk) (late : env.expired c.store = true) :
      Event env statement read c { c with pool := c.pool.step (.skip i) }
  | begin {c : CallingPool σ ι α m} {chunk : List ι} (i : Nat)
      (taken : c.pool.taken[i]? = some chunk) (intime : env.expired c.store = false) :
      Event env statement read c
        { c with pool := c.pool.step (.begin i), unsent := c.unsent ++ [chunk] }
  /-- The call for a chunk takes effect. -/
  | reach {c : CallingPool σ ι α m} {chunk : List ι} {rest : List (List ι)}
      (unsent : c.unsent.Perm (chunk :: rest)) (intime : env.expired c.store = false) :
      Event env statement read c
        { c with
          store := (env.call m (statement chunk) c.store).2
          unsent := rest
          answered := (chunk, (env.call m (statement chunk) c.store).1) :: c.answered }
  /-- The answer for a chunk is recorded. -/
  | record {c : CallingPool σ ι α m} {chunk : List ι} {result : Result m}
      {rest : List (List ι × Result m)} (i : Nat) (running : c.pool.running[i]? = some chunk)
      (answered : c.answered.Perm ((chunk, result) :: rest)) :
      Event env statement read c
        { c with
          pool := c.pool.step (.finish i
            (.returned ((result.bind read).mapError (·.withStatement (statement chunk).text))))
          answered := rest }

variable {env : Environment σ} {statement : List ι → Statement}
  {read : m.Reply → Except StoreError (Table α)} {c c' : CallingPool σ ι α m}
  {workers : Nat} {chunks : List (List ι)}

/-- Such a pool runs as pools do. -/
theorem exists_events (h : ReflTransGen (Event env statement read) c c') :
    ∃ events, c'.pool = c.pool.run events := by
  induction h with
  | refl => exact ⟨[], rfl⟩
  | tail _ hevent ih =>
      obtain ⟨events, hevents⟩ := ih
      have hone : ∀ e, (c.pool.run events).step e = c.pool.run (events ++ [e]) := fun e => by
        unfold Pool.run
        rw [List.foldl_append]
        rfl
      cases hevent with
      | reach => exact ⟨events, hevents⟩
      | _ =>
          rw [hevents, hone]
          exact ⟨_, rfl⟩

/-- What holds at every moment: a chunk is in work until its answer is recorded, and no worker
dies. -/
structure Served (workers : Nat) (chunks : List (List ι)) (c : CallingPool σ ι α m) : Prop where
  sound : c.pool.Sound workers chunks
  alive : c.pool.deaths = 0
  working : c.pool.running.Perm (c.unsent ++ c.answered.map (·.1))

theorem served_start (workers : Nat) (chunks : List (List ι)) (s : σ) :
    Served workers chunks (start workers chunks s : CallingPool σ ι α m) :=
  ⟨Pool.sound_start workers chunks, rfl, .nil⟩

theorem Served.event (h : Served workers chunks c) (hevent : Event env statement read c c') :
    Served workers chunks c' := by
  have hworking := h.working
  cases hevent with
  | take free waiting =>
      have hsound := h.sound.step .take
      rw [Pool.step_take free waiting] at hsound ⊢
      exact ⟨hsound, h.alive, hworking⟩
  | skip i taken late =>
      have hsound := h.sound.step (.skip i)
      rw [Pool.step_skip taken] at hsound ⊢
      refine ⟨hsound, ?_, hworking⟩
      rw [Pool.deaths_of_ended rfl, h.alive]
      rfl
  | begin i taken intime =>
      have hsound := h.sound.step (.begin i)
      rw [Pool.step_begin taken] at hsound ⊢
      refine ⟨hsound, h.alive, ?_⟩
      -- the new chunk stands behind those with answers now
      refine (hworking.append_right _).trans ?_
      rw [List.append_assoc, List.append_assoc]
      exact List.perm_append_comm.append_left _
  | reach unsent intime =>
      refine ⟨h.sound, h.alive, hworking.trans ?_⟩
      exact (unsent.append_right _).trans List.perm_middle.symm
  | @record chunk result rest i running answered =>
      have hsound := h.sound.step (.finish i
        (.returned ((result.bind read).mapError (·.withStatement (statement chunk).text))))
      rw [Pool.step_finish running] at hsound ⊢
      refine ⟨hsound, ?_, ?_⟩
      · rw [Pool.deaths_of_ended rfl, h.alive]
        rfl
      · have hall := (Pool.perm_eraseIdx running).symm.trans (hworking.trans
          ((answered.map (·.1)).append_left _))
        exact (hall.trans List.perm_middle).cons_inv

/-- At the end nothing is left to do. -/
theorem Served.done (h : Served workers chunks c) (hworkers : chunks ≠ [] → 0 < workers)
    (hdone : c.pool.isDone = true) :
    c.pool.taken = [] ∧ c.pool.waiting = [] ∧ c.unsent = [] ∧ c.answered = [] := by
  obtain ⟨htaken, hrunning, hend⟩ := Pool.isDone_iff.1 hdone
  have hworking := h.working
  rw [hrunning, List.nil_perm, List.append_eq_nil_iff, List.map_eq_nil_iff] at hworking
  refine ⟨htaken, ?_, hworking⟩
  rcases hend with hnone | hfree
  · exact hnone
  · -- all workers live, so there are none, and hence no chunks
    unfold Pool.free at hfree
    rw [h.sound.workers, htaken, hrunning, h.alive] at hfree
    have hempty : chunks = [] := by
      by_contra hne
      have hpos := hworkers hne
      simp only [List.length_nil] at hfree
      omega
    have hplaced := h.sound.placed
    rw [hempty, List.perm_nil] at hplaced
    exact (List.append_eq_nil_iff.1 hplaced).2

/-! ## Executions -/

/-- How a call has ended that was answered. -/
def completion (statement : List ι → Statement) (a : List ι × Result m) : Completion m :=
  ⟨statement a.1, some a.2⟩

/-- The end of a chunk and the end of its call. -/
structure EndOf (statement : List ι → Statement) (read : m.Reply → Except StoreError (Table α))
    (e : List ι × ChunkEnd α) (call : Completion m) : Prop where
  statement : call.statement = statement e.1
  ends : call.chunkEnd read = e.2

/-- From one moment to another one, chunks end as some calls do: those that have been answered at
the first moment, and others, which take effect or are skipped later. -/
structure EndsAs (statement : List ι → Statement) (read : m.Reply → Except StoreError (Table α))
    (c c' : CallingPool σ ι α m) (ends later : List (Completion m)) : Prop where
  ended : ∃ new, c'.pool.ended = c.pool.ended ++ new ∧ List.Forall₂ (EndOf statement read) new ends
  /-- Calls that come later stand in the order in which their answers are recorded. -/
  sublist : later.Sublist ends
  perm : ends.Perm (later ++ c.answered.map (completion statement))

/-- From one moment to another one, the store is called as by a program that has the statements of
the chunks that are due and of those that wait. -/
def Executes (env : Environment σ) (statement : List ι → Statement)
    (read : m.Reply → Except StoreError (Table α)) (workers : Nat) (due : List (List ι))
    (c c' : CallingPool σ ι α m) : Prop :=
  ∃ ends later, EndsAs statement read c c' ends later ∧
    ∀ (β : Type) (next : List (Completion m) → Program β),
      ReflTransGen env.Solo
        (.pool m workers ((due ++ c.pool.waiting).map statement) next, c.store)
        (next later, c'.store)

/-! Each kind of event goes in front of an execution of what is left.  Taking, beginning and recording
leave the store alone, so the program makes no move for them. -/

namespace Executes

variable {due before after : List (List ι)} {chunk : List ι} {i : Nat}

theorem done (h : Served workers chunks c) (hworkers : chunks ≠ [] → 0 < workers)
    (hdone : c.pool.isDone = true) : Executes env statement read workers [] c c := by
  obtain ⟨-, hwaiting, -, hanswered⟩ := h.done hworkers hdone
  refine ⟨[], [], ⟨⟨[], (List.append_nil _).symm, .nil⟩, .slnil, ?_⟩, fun β next => ?_⟩
  · rw [hanswered]
    exact .nil
  · rw [hwaiting]
    exact .single Environment.Move.close.solo

theorem take {rest : List (List ι)} (free : 0 < c.pool.free)
    (waiting : c.pool.waiting = chunk :: rest)
    (h : Executes env statement read workers (due ++ [chunk])
      { c with pool := c.pool.step .take } c') :
    Executes env statement read workers due c c' := by
  rw [Pool.step_take free waiting] at h
  obtain ⟨ends, later, hends, hmoves⟩ := h
  refine ⟨ends, later, ⟨hends.ended, hends.sublist, hends.perm⟩, fun β next => ?_⟩
  rw [waiting, ← List.singleton_append, ← List.append_assoc]
  exact hmoves β next

theorem skip (taken : c.pool.taken[i]? = some chunk) (late : env.expired c.store = true)
    (few : before.length < workers)
    (h : Executes env statement read workers (before ++ after)
      { c with pool := c.pool.step (.skip i) } c') :
    Executes env statement read workers (before ++ chunk :: after) c c' := by
  rw [Pool.step_skip taken] at h
  obtain ⟨ends, later, ⟨⟨new, hnew, hall⟩, hsublist, hperm⟩, hmoves⟩ := h
  -- the chunk is the next one to end
  let call : Completion m := ⟨statement chunk, none⟩
  refine ⟨call :: ends, call :: later, ⟨⟨(chunk, .skipped) :: new, ?_, .cons ⟨rfl, rfl⟩ hall⟩,
    hsublist.cons_cons call, hperm.cons call⟩, fun β next => ?_⟩
  · rw [hnew, List.append_assoc]
    rfl
  · have hmove := Environment.Move.skip_at (before.map statement)
      ((after ++ c.pool.waiting).map statement) (statement chunk) next
      (Or.inr (by rwa [List.length_map])) late 0
    rw [← List.map_append, ← List.append_assoc] at hmove
    rw [List.append_assoc, List.cons_append, List.map_append, List.map_cons]
    exact .head hmove.solo (hmoves β fun ends => next (call :: ends))

theorem begin (taken : c.pool.taken[i]? = some chunk)
    (h : Executes env statement read workers due
      { c with pool := c.pool.step (.begin i), unsent := c.unsent ++ [chunk] } c') :
    Executes env statement read workers due c c' := by
  rw [Pool.step_begin taken] at h
  obtain ⟨ends, later, hends, hmoves⟩ := h
  exact ⟨ends, later, ⟨hends.ended, hends.sublist, hends.perm⟩, hmoves⟩

theorem reach {rest : List (List ι)} (intime : env.expired c.store = false)
    (few : before.length < workers)
    (h : Executes env statement read workers (before ++ after)
      { c with
        store := (env.call m (statement chunk) c.store).2
        unsent := rest
        answered := (chunk, (env.call m (statement chunk) c.store).1) :: c.answered } c') :
    Executes env statement read workers (before ++ chunk :: after) c c' := by
  obtain ⟨ends, later, ⟨hended, hsublist, hperm⟩, hmoves⟩ := h
  rw [List.map_cons] at hperm
  -- the answer will be recorded at some place among the ends of the calls that come later
  obtain ⟨place, hplace⟩ := exists_insert hsublist hperm
  refine ⟨ends, _, ⟨hended, hplace, hperm.trans ?_⟩, fun β next => ?_⟩
  · rw [List.append_assoc, List.cons_append]
    refine List.perm_middle.trans (List.Perm.trans ?_ List.perm_middle.symm)
    rw [← List.append_assoc, List.take_append_drop]
  · have hmove := Environment.Move.work_at (before.map statement)
      ((after ++ c.pool.waiting).map statement) (statement chunk) next
      (Or.inr (by rwa [List.length_map])) intime place
    rw [← List.map_append, ← List.append_assoc] at hmove
    rw [List.append_assoc, List.cons_append, List.map_append, List.map_cons]
    exact .head hmove.solo (hmoves β fun ends => next (ends.take place ++
      completion statement (chunk, (env.call m (statement chunk) c.store).1) :: ends.drop place))

theorem record {result : Result m} {rest : List (List ι × Result m)}
    (running : c.pool.running[i]? = some chunk)
    (answered : c.answered.Perm ((chunk, result) :: rest))
    (h : Executes env statement read workers due
      { c with
        pool := c.pool.step (.finish i
          (.returned ((result.bind read).mapError (·.withStatement (statement chunk).text))))
        answered := rest } c') :
    Executes env statement read workers due c c' := by
  rw [Pool.step_finish running] at h
  obtain ⟨ends, later, ⟨⟨new, hnew, hall⟩, hsublist, hperm⟩, hmoves⟩ := h
  let call : Completion m := completion statement (chunk, result)
  refine ⟨call :: ends, later, ⟨⟨(chunk, call.chunkEnd read) :: new, ?_, .cons ⟨rfl, rfl⟩ hall⟩,
    hsublist.cons call, ?_⟩, hmoves⟩
  · rw [hnew, List.append_assoc]
    rfl
  · refine ((hperm.cons call).trans List.perm_middle.symm).trans ?_
    exact (answered.map (completion statement)).symm.append_left later

end Executes

/-- A chunk whose call is due has fewer chunks before it than there are workers. -/
theorem Served.exists_due (h : Served workers chunks c) {due left : List (List ι)}
    (hdue : due.Perm (c.pool.taken ++ c.unsent)) {chunk : List ι}
    (hchunk : due.Perm (chunk :: left)) :
    ∃ before after, due = before ++ chunk :: after ∧ (before ++ after).Perm left ∧
      before.length < workers := by
  obtain ⟨before, after, rfl⟩ := List.append_of_mem (hchunk.mem_iff.2 List.mem_cons_self)
  refine ⟨before, after, rfl, (List.perm_middle.symm.trans hchunk).cons_inv, ?_⟩
  have hstaffed := h.sound.staffed
  have hlength := hdue.length_eq
  have hrunning := h.working.length_eq
  simp only [List.length_append, List.length_cons] at hlength hrunning
  omega

/-- Up to its end, a pool calls the store as a program does. -/
theorem Served.executes (hworkers : chunks ≠ [] → 0 < workers) (hdone : c'.pool.isDone = true)
    (hevents : ReflTransGen (Event env statement read) c c') (h : Served workers chunks c)
    {due : List (List ι)} (hdue : due.Perm (c.pool.taken ++ c.unsent)) :
    Executes env statement read workers due c c' := by
  induction hevents using ReflTransGen.head_induction_on generalizing due with
  | refl =>
      obtain ⟨htaken, -, hunsent, -⟩ := h.done hworkers hdone
      rw [htaken, hunsent, List.append_nil, List.perm_nil] at hdue
      rw [hdue]
      exact .done h hworkers hdone
  | @head c c₁ hevent _ ih =>
      have h₁ := h.event hevent
      cases hevent with
      | @take chunk rest free waiting =>
          refine .take free waiting (ih h₁ ?_)
          rw [Pool.step_take free waiting]
          refine (hdue.append_right [chunk]).trans ?_
          rw [List.append_assoc, List.append_assoc]
          exact List.perm_append_comm.append_left _
      | @skip chunk i taken late =>
          have hchunk := hdue.trans ((Pool.perm_eraseIdx taken).append_right c.unsent)
          obtain ⟨before, after, rfl, hleft, few⟩ := h.exists_due hdue hchunk
          refine .skip taken late few (ih h₁ ?_)
          rw [Pool.step_skip taken]
          exact hleft
      | @begin chunk i taken intime =>
          refine .begin taken (ih h₁ ?_)
          rw [Pool.step_begin taken]
          refine (hdue.trans ((Pool.perm_eraseIdx taken).append_right c.unsent)).trans ?_
          rw [← List.append_assoc]
          exact (List.perm_append_singleton chunk _).symm
      | @reach chunk rest unsent intime =>
          have hchunk := hdue.trans ((unsent.append_left c.pool.taken).trans List.perm_middle)
          obtain ⟨before, after, rfl, hleft, few⟩ := h.exists_due hdue hchunk
          exact .reach intime few (ih h₁ hleft)
      | @record chunk result rest i running answered =>
          refine .record running answered (ih h₁ ?_)
          rw [Pool.step_finish running]
          exact hdue

/-! ## Schedulers -/

theorem map_ends {new : List (List ι × ChunkEnd α)} {ends : List (Completion m)}
    (h : List.Forall₂ (EndOf statement read) new ends) :
    new.map (·.2) = ends.map (·.chunkEnd read) := by
  induction h with
  | nil => rfl
  | cons hend _ ih => rw [List.map_cons, List.map_cons, hend.ends, ih]

/-- What the pool of a scheduler comes to when each chunk has a statement, an execution of the
program that makes these calls comes to. -/
theorem solo_callAll_of_pool (scheduler : BatchScheduler) (items : List ι) (s : σ)
    (hevents : ReflTransGen (Event env statement read)
      (start (scheduler.workersFor (scheduler.split items).length) (scheduler.split items) s) c)
    (hdone : c.pool.isDone = true) :
    ReflTransGen env.Solo
      ((StoreM.callAll scheduler m ((scheduler.split items).map statement) read).run, s)
      (.pure (c.pool.outcome (scheduler.split items).length).toExcept, c.store) := by
  generalize scheduler.split items = chunks at hevents ⊢
  have hworkers : chunks ≠ [] → 0 < scheduler.workersFor chunks.length := fun hne =>
    Nat.lt_min.2 ⟨scheduler.maxWorkers_pos, List.length_pos_iff.2 hne⟩
  obtain ⟨ends, later, ⟨⟨new, hnew, hall⟩, hsublist, hperm⟩, hmoves⟩ :=
    (served_start _ chunks s).executes hworkers hdone hevents .nil
  -- no call had been answered at the start, so all calls come later
  have hlater : later = ends := by
    refine hsublist.eq_of_length ?_
    rw [hperm.length_eq, List.length_append]
    rfl
  have houtcome : c.pool.outcome chunks.length =
      .ofEnds chunks.length (ends.map (·.chunkEnd read)) := by
    rw [Pool.outcome, hnew, ← map_ends hall]
    rfl
  have hrun : (StoreM.callAll scheduler m (chunks.map statement) read).run =
      .pool m (scheduler.workersFor chunks.length) (chunks.map statement) fun completions =>
        .pure (BatchOutcome.ofEnds chunks.length (completions.map (·.chunkEnd read))).toExcept := by
    unfold StoreM.callAll
    rw [List.length_map]
    rfl
  rw [hrun, houtcome, ← hlater]
  exact hmoves _ _

/-- What all executions of a program that calls the store for each chunk yield, the pool of the
scheduler comes to. -/
theorem outcome_of_yields (scheduler : BatchScheduler) (items : List ι) (s : σ)
    {post : Except StoreError (Table α) → σ → Prop}
    (hyields : env.Yields
      (StoreM.callAll scheduler m ((scheduler.split items).map statement) read).run s post)
    (hevents : ReflTransGen (Event env statement read)
      (start (scheduler.workersFor (scheduler.split items).length) (scheduler.split items) s) c)
    (hdone : c.pool.isDone = true) :
    post (c.pool.outcome (scheduler.split items).length).toExcept c.store :=
  hyields.at_end (solo_callAll_of_pool scheduler items s hevents hdone)

/-! ## The end is in reach -/

theorem Served.events (h : Served workers chunks c)
    (hevents : ReflTransGen (Event env statement read) c c') : Served workers chunks c' := by
  induction hevents with
  | refl => exact h
  | tail _ hevent ih => exact ih.event hevent

/-- When no call is on its way to the store, something happens after which there is less to do. -/
theorem Served.exists_less (h : Served workers chunks c) (hunsent : c.unsent = [])
    (hdone : ¬ c.pool.isDone = true) :
    ∃ c', ReflTransGen (Event env statement read) c c' ∧ c'.unsent = [] ∧
      c'.pool.left < c.pool.left := by
  have hworking := h.working
  rw [hunsent, List.nil_append] at hworking
  cases hanswered : c.answered with
  | cons a rest =>
      have hmem : a.1 ∈ c.pool.running := by
        rw [hworking.mem_iff, hanswered]
        exact List.mem_cons_self
      obtain ⟨i, hi⟩ := List.getElem?_of_mem hmem
      have hperm : c.answered.Perm ((a.1, a.2) :: rest) := by rw [hanswered]
      exact ⟨_, .single (.record i hi hperm), hunsent, Pool.left_step (Pool.step_finish_ne hi)⟩
  | nil =>
      rw [hanswered, List.map_nil, List.perm_nil] at hworking
      cases htaken : c.pool.taken with
      | cons chunk rest =>
          have hchunk : c.pool.taken[0]? = some chunk := by rw [htaken, List.getElem?_cons_zero]
          cases hexpired : env.expired c.store with
          | true =>
              exact ⟨_, .single (.skip 0 hchunk hexpired), hunsent,
                Pool.left_step (Pool.step_skip_ne hchunk)⟩
          | false =>
              -- the call takes effect at once
              have hunsent' : (c.unsent ++ [chunk]).Perm (chunk :: []) := by rw [hunsent]; rfl
              exact ⟨_, .head (.begin 0 hchunk hexpired) (.single (.reach hunsent' hexpired)), rfl,
                Pool.left_step (Pool.step_begin_ne hchunk)⟩
      | nil =>
          cases hwaiting : c.pool.waiting with
          | nil => exact absurd (Pool.isDone_iff.2 ⟨htaken, hworking, Or.inl hwaiting⟩) hdone
          | cons chunk rest =>
              have hfree : 0 < c.pool.free := Nat.pos_of_ne_zero fun hzero =>
                hdone (Pool.isDone_iff.2 ⟨htaken, hworking, Or.inr hzero⟩)
              exact ⟨_, .single (.take hfree hwaiting), hunsent,
                Pool.left_step (Pool.step_take_ne hfree hwaiting)⟩

/-- A pool can come to its end when no call is on its way to the store, as at the start. -/
theorem Served.exists_done (h : Served workers chunks c) (hunsent : c.unsent = []) :
    ∃ c', ReflTransGen (Event env statement read) c c' ∧ c'.pool.isDone = true := by
  induction hn : c.pool.left using Nat.strongRecOn generalizing c with
  | _ n ih =>
      by_cases hdone : c.pool.isDone = true
      · exact ⟨c, .refl, hdone⟩
      · obtain ⟨c₁, hevents, hunsent₁, hless⟩ := h.exists_less hunsent hdone
        obtain ⟨c', hrest, hend⟩ := ih _ (hn ▸ hless) (h.events hevents) hunsent₁ rfl
        exact ⟨c', hevents.trans hrest, hend⟩

end CallingPool
end InstanceHierarchy
