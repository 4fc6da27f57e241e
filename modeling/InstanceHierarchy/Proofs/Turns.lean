import InstanceHierarchy.Batch.Timeline
import InstanceHierarchy.Proofs.Workers
import Mathlib.Logic.Relation

/-!
# Workers that take turns on one thread

On one thread a worker runs until it sleeps, so nothing comes between the taking of a chunk and the
look at the deadline.  Whatever the work on the chunks is, however long it sleeps and whichever of
the workers runs next, the chunks are handed over in their order, and the first chunk that comes too
late is the first of those that are left out.  Work that is in flight at that moment goes on, and
what it comes to is recorded.

The clock moves between the steps of the workers, and never backwards.  Work that kills its worker
is left out here.  In the end the timeline of work whose durations are known is shown to be one of
these runs, and one that comes to its end.
-/

namespace InstanceHierarchy

open Relation

variable {ι α : Type}

namespace Pool

variable {p : Pool ι α} {chunk : List ι} {rest : List (List ι)}

/-- A chunk that is taken and skipped. -/
theorem step_take_skip (htaken : p.taken = []) (hfree : 0 < p.free)
    (hwaiting : p.waiting = chunk :: rest) :
    (p.step .take).step (.skip 0) =
      { p with waiting := rest, ended := p.ended ++ [(chunk, .skipped)] } := by
  have hchunk : (p.taken ++ [chunk])[0]? = some chunk := by rw [htaken]; rfl
  rw [step_take hfree hwaiting, step_skip hchunk, htaken]
  rfl

/-- A chunk that is taken and begun. -/
theorem step_take_begin (htaken : p.taken = []) (hfree : 0 < p.free)
    (hwaiting : p.waiting = chunk :: rest) :
    (p.step .take).step (.begin 0) =
      { p with waiting := rest, running := p.running ++ [chunk], begun := p.begun ++ [chunk] } := by
  have hchunk : (p.taken ++ [chunk])[0]? = some chunk := by rw [htaken]; rfl
  rw [step_take hfree hwaiting, step_begin hchunk, htaken]
  rfl

end Pool

/-! ## Turns -/

/-- A pool on one thread with its clock, and the times at which chunks were begun. -/
structure Schedule (ι α : Type) where
  pool : Pool ι α
  now : Nat
  begunAt : List Nat

namespace Schedule

/-- Some moment at which no worker has run. -/
def start (workers : Nat) (chunks : List (List ι)) (now : Nat) : Schedule ι α :=
  ⟨.start workers chunks, now, []⟩

/-- What can happen next on one thread. -/
inductive Turn (deadline : Deadline) : Schedule ι α → Schedule ι α → Prop where
  /-- Time passes. -/
  | wait {t : Schedule ι α} (time : Nat) (later : t.now ≤ time) :
      Turn deadline t { t with now := time }
  /-- A free worker takes the next chunk, finds the deadline passed and skips the chunk. -/
  | skip {t : Schedule ι α} (free : 0 < t.pool.free) (waiting : t.pool.waiting ≠ [])
      (late : deadline.isPast t.now = true) :
      Turn deadline t { t with pool := (t.pool.step .take).step (.skip 0) }
  /-- A free worker takes the next chunk, finds time left and begins to work on the chunk. -/
  | begin {t : Schedule ι α} (free : 0 < t.pool.free) (waiting : t.pool.waiting ≠ [])
      (intime : deadline.isPast t.now = false) :
      Turn deadline t
        { t with
          pool := (t.pool.step .take).step (.begin 0)
          begunAt := t.begunAt ++ [t.now] }
  /-- The work on a chunk comes to a result or to a failure. -/
  | finish {t : Schedule ι α} (i : Nat) (result : Except StoreError (Table α)) :
      Turn deadline t { t with pool := t.pool.step (.finish i (.returned result)) }

/-- What holds at every moment: the chunks that were begun, those that were skipped and those that
wait make up all chunks in their order, and each chunk that was begun was begun in time. -/
structure Orderly (deadline : Deadline) (workers : Nat) (chunks : List (List ι))
    (t : Schedule ι α) : Prop where
  order : t.pool.begun ++ t.pool.skipped ++ t.pool.waiting = chunks
  timed : t.begunAt.length = t.pool.begun.length
  inTime : ∀ time ∈ t.begunAt, deadline.isPast time = false
  ascending : t.begunAt.Pairwise (· ≤ ·)
  past : ∀ time ∈ t.begunAt, time ≤ t.now
  late : t.pool.skipped ≠ [] → deadline.isPast t.now = true
  /-- No worker holds a chunk without having looked at the deadline. -/
  looked : t.pool.taken = []
  /-- Every chunk that was begun is worked on or has come to its end, -/
  sound : t.pool.Sound workers chunks
  /-- and this is a result or a failure. -/
  returned : ∀ e ∈ t.pool.ended, e.2 = .skipped ∨ ∃ r, e.2 = .worked (.returned r)

variable {deadline : Deadline} {workers : Nat} {chunks : List (List ι)} {t t' : Schedule ι α}

theorem orderly_start (deadline : Deadline) (workers : Nat) (chunks : List (List ι)) (now : Nat) :
    (start workers chunks now : Schedule ι α).Orderly deadline workers chunks where
  order := rfl
  timed := rfl
  inTime _ h := absurd h List.not_mem_nil
  ascending := .nil
  past _ h := absurd h List.not_mem_nil
  late h := absurd rfl h
  looked := rfl
  sound := Pool.sound_start workers chunks
  returned _ h := absurd h List.not_mem_nil

theorem Orderly.turn (h : t.Orderly deadline workers chunks) (hturn : t.Turn deadline t') :
    t'.Orderly deadline workers chunks := by
  cases hturn with
  | wait time later =>
      exact { h with
        past := fun b hb => Nat.le_trans (h.past b hb) later
        late := fun hne => Deadline.isPast_mono later (h.late hne) }
  | skip free waiting late =>
      obtain ⟨chunk, rest, hwaiting⟩ := List.exists_cons_of_ne_nil waiting
      have hsound := (h.sound.step .take).step (.skip 0)
      have horder := h.order
      rw [hwaiting] at horder
      rw [Pool.step_take_skip h.looked free hwaiting] at hsound ⊢
      refine { h with
        order := ?_
        late := fun _ => late
        sound := hsound
        returned := List.forall_mem_append.2
          ⟨h.returned, List.forall_mem_singleton.2 (Or.inl rfl)⟩ }
      rw [Pool.skipped_of_ended rfl, ChunkEnd.isSkip, if_pos rfl]
      simpa using horder
  | begin free waiting intime =>
      obtain ⟨chunk, rest, hwaiting⟩ := List.exists_cons_of_ne_nil waiting
      have hsound := (h.sound.step .take).step (.begin 0)
      have horder := h.order
      -- with time left, no chunk has been skipped
      have hnone : t.pool.skipped = [] := by
        by_contra hne
        rw [h.late hne] at intime
        cases intime
      rw [hwaiting, hnone] at horder
      rw [Pool.step_take_begin h.looked free hwaiting] at hsound ⊢
      refine { h with
        order := ?_
        timed := by simp [h.timed]
        inTime := List.forall_mem_append.2 ⟨h.inTime, List.forall_mem_singleton.2 intime⟩
        ascending := List.pairwise_append.2
          ⟨h.ascending, List.pairwise_singleton _ _, fun a ha b hb =>
            List.mem_singleton.1 hb ▸ h.past a ha⟩
        past := List.forall_mem_append.2
          ⟨h.past, List.forall_mem_singleton.2 (Nat.le_refl t.now)⟩
        late := fun hne => absurd hnone hne
        sound := hsound }
      show t.pool.begun ++ [chunk] ++ t.pool.skipped ++ rest = chunks
      rw [hnone]
      simpa using horder
  | finish i result =>
      have hsound := h.sound.step (.finish i (.returned result))
      cases hchunk : t.pool.running[i]? with
      | none =>
          have hsame : t.pool.step (.finish i (.returned result)) = t.pool := by
            simp [Pool.step, hchunk]
          rw [hsame]
          exact h
      | some chunk =>
          rw [Pool.step_finish hchunk] at hsound ⊢
          have hskipped : Pool.skipped
              { t.pool with
                running := t.pool.running.eraseIdx i
                ended := t.pool.ended ++ [(chunk, .worked (.returned result))] } =
                t.pool.skipped := by
            rw [Pool.skipped_of_ended rfl, ChunkEnd.isSkip, if_neg Bool.false_ne_true,
              List.append_nil]
          refine { h with
            order := by rw [hskipped]; exact h.order
            late := by rw [hskipped]; exact h.late
            sound := hsound
            returned := List.forall_mem_append.2
              ⟨h.returned, List.forall_mem_singleton.2 (Or.inr ⟨result, rfl⟩)⟩ }

/-- However the workers take their turns, the chunks keep their order. -/
theorem Orderly.turns (h : t.Orderly deadline workers chunks)
    (hturns : ReflTransGen (Turn deadline) t t') : t'.Orderly deadline workers chunks := by
  induction hturns with
  | refl => exact h
  | tail _ hturn ih => exact ih.turn hturn

/-! ## The end -/

/-- A pool has come to its end after so many chunks were begun.  Those are the first ones, the
others were skipped, and what the work on each of them came to is in the outcome. -/
structure CutAfter (n : Nat) (chunks : List (List ι))
    (returns : List (List ι × Except StoreError (Table α))) (p : Pool ι α) : Prop where
  begun : p.begun = chunks.take n
  skipped : p.skipped = chunks.drop n
  returned : (returns.map (·.1)).Perm (chunks.take n)
  ended : p.ended.Perm ((returns.map fun c => (c.1, .worked (.returned c.2))) ++
    (chunks.drop n).map (·, .skipped))
  errors : (p.outcome chunks.length).errors.Perm
    ((returns.filterMap fun c => (ChunkEnd.worked (.returned c.2)).error?) ++
      List.replicate (chunks.length - n) .deadlineExceeded)
  parts : p.parts.Perm (returns.filterMap fun c => (ChunkEnd.worked (.returned c.2)).part?)
  results : ∀ k, (p.outcome chunks.length).results.get? k = p.parts.reverse.findSome? (·.get? k)

/-- The chunks that were skipped and those whose work has ended, among the ends. -/
theorem perm_ended (p : Pool ι α)
    (h : ∀ e ∈ p.ended, e.2 = .skipped ∨ ∃ r, e.2 = .worked (.returned r)) :
    ∃ returns : List (List ι × Except StoreError (Table α)), returns.map (·.1) = p.worked ∧
      p.ended.Perm ((returns.map fun c => (c.1, .worked (.returned c.2))) ++
        p.skipped.map (·, .skipped)) := by
  unfold Pool.worked Pool.skipped
  generalize p.ended = ended at h
  induction ended with
  | nil => exact ⟨[], rfl, .nil⟩
  | cons e rest ih =>
      obtain ⟨returns, hworked, hperm⟩ := ih fun e he => h e (List.mem_cons_of_mem _ he)
      obtain ⟨chunk, how⟩ := e
      rcases h _ List.mem_cons_self with rfl | ⟨r, rfl⟩
      · exact ⟨returns, hworked, (hperm.cons _).trans List.perm_middle.symm⟩
      · exact ⟨(chunk, r) :: returns, congrArg (chunk :: ·) hworked, hperm.cons _⟩

theorem errors_skipped (chunks : List (List ι)) :
    (chunks.map fun c => (c, (ChunkEnd.skipped : ChunkEnd α))).filterMap (fun e => e.2.error?) =
      List.replicate chunks.length .deadlineExceeded := by
  induction chunks with
  | nil => rfl
  | cons chunk rest ih => exact congrArg (StoreError.deadlineExceeded :: ·) ih

theorem parts_skipped (chunks : List (List ι)) :
    (chunks.map fun c => (c, (ChunkEnd.skipped : ChunkEnd α))).filterMap (fun e => e.2.part?) =
      [] := by
  simp [ChunkEnd.part?]

theorem Orderly.cutAfter (h : t.Orderly deadline workers chunks)
    (hworkers : chunks ≠ [] → 0 < workers) (hdone : t.pool.isDone = true) :
    ∃ returns, CutAfter t.pool.begun.length chunks returns t.pool := by
  obtain ⟨-, hrunning, hend⟩ := Pool.isDone_iff.1 hdone
  have halive : t.pool.deaths = 0 := by
    rw [Pool.deaths_eq, List.countP_eq_zero]
    intro e he
    rcases h.returned e he with hskip | ⟨r, hr⟩
    · simp [hskip, ChunkEnd.isDeath]
    · simp [hr, ChunkEnd.isDeath]
  -- all workers are alive and free, so no chunk waits
  have hwaiting : t.pool.waiting = [] := by
    refine hend.elim id fun hfree => ?_
    by_contra hne
    have hchunks : chunks ≠ [] := by
      intro hnil
      have horder := h.order
      rw [hnil] at horder
      exact hne (List.append_eq_nil_iff.1 horder).2
    have hpos := hworkers hchunks
    simp only [Pool.free, h.looked, hrunning, halive, h.sound.workers, List.length_nil] at hfree
    omega
  have horder := h.order
  rw [hwaiting, List.append_nil] at horder
  have hbegun : t.pool.begun = chunks.take t.pool.begun.length := by
    rw [← horder, List.take_left]
  have hskipped : t.pool.skipped = chunks.drop t.pool.begun.length := by
    conv_rhs => rw [← horder]
    rw [List.drop_left]
  obtain ⟨returns, hworked, hended⟩ := perm_ended t.pool h.returned
  rw [hskipped] at hended
  refine ⟨returns, hbegun, hskipped, ?_, hended, ?_, ?_, Pool.get?_outcome t.pool _⟩
  · rw [hworked, ← hbegun]
    exact (h.sound.done hdone).1
  · rw [Pool.errors_outcome, ← List.length_drop]
    refine (hended.filterMap _).trans (.of_eq ?_)
    rw [List.filterMap_append, List.filterMap_map, errors_skipped]
    rfl
  · refine (hended.filterMap _).trans (.of_eq ?_)
    rw [List.filterMap_append, List.filterMap_map, parts_skipped, List.append_nil]
    rfl

/-- The order in which the results came does not matter. -/
theorem CutAfter.congr {n : Nat} {p : Pool ι α}
    {returns returns' : List (List ι × Except StoreError (Table α))}
    (h : CutAfter n chunks returns p) (hperm : returns.Perm returns') :
    CutAfter n chunks returns' p where
  begun := h.begun
  skipped := h.skipped
  returned := (hperm.map _).symm.trans h.returned
  ended := h.ended.trans ((hperm.map _).append_right _)
  errors := h.errors.trans ((hperm.filterMap _).append_right _)
  parts := h.parts.trans (hperm.filterMap _)
  results := h.results

/-- When as many chunks have ended as there are, no chunk is worked on. -/
theorem Orderly.running_eq_nil (h : t.Orderly deadline workers chunks)
    (hended : chunks.length ≤ t.pool.ended.length) : t.pool.running = [] := by
  have horder := congrArg List.length h.order
  have hworking := h.sound.working.length_eq
  have hsplit : t.pool.ended.length = t.pool.skipped.length + t.pool.worked.length := by
    unfold Pool.skipped Pool.worked
    rw [List.length_map, List.length_map]
    exact List.length_eq_length_filter_add _
  simp only [List.length_append] at horder hworking
  exact List.eq_nil_of_length_eq_zero (by omega)

end Schedule

/-! ## Timelines -/

namespace Timeline

open Schedule

variable {work : List ι → Work α} {deadline : Deadline} {workers : Nat} {chunks : List (List ι)}
  {t : Timeline ι α}

/-- What a timeline shows of its pool. -/
def schedule (t : Timeline ι α) : Schedule ι α := ⟨t.pool, t.now, t.begunAt⟩

/-- A timeline is the record of a run in turns.  Each chunk that is worked on has its wake-up, which
is not past, and each end is what the work on the chunk comes to. -/
structure Steady (work : List ι → Work α) (deadline : Deadline) (workers : Nat)
    (chunks : List (List ι)) (t : Timeline ι α) : Prop where
  reached : ReflTransGen (Turn deadline) (.start workers chunks 0) t.schedule
  aligned : t.sleeping.map (·.2) = t.pool.running.map fun c => (work c).finish
  ahead : ∀ s ∈ t.sleeping, t.now ≤ s.1
  ends : ∀ e ∈ t.pool.ended, e.2 = .skipped ∨ e.2 = .worked (work e.1).finish

theorem steady_start (work : List ι → Work α) (deadline : Deadline) (workers : Nat)
    (chunks : List (List ι)) : Steady work deadline workers chunks (start workers chunks) where
  reached := .refl
  aligned := rfl
  ahead _ h := absurd h List.not_mem_nil
  ends _ h := absurd h List.not_mem_nil

theorem Steady.orderly (h : Steady work deadline workers chunks t) :
    t.schedule.Orderly deadline workers chunks :=
  (orderly_start deadline workers chunks 0).turns h.reached

/-- One more chunk ends. -/
theorem Steady.ends_append (h : Steady work deadline workers chunks t) {chunk : List ι}
    {how : ChunkEnd α} (hhow : how = .skipped ∨ how = .worked (work chunk).finish) :
    ∀ e ∈ t.pool.ended ++ [(chunk, how)], e.2 = .skipped ∨ e.2 = .worked (work e.1).finish :=
  List.forall_mem_append.2 ⟨h.ends, List.forall_mem_singleton.2 hhow⟩

/-- A free worker takes the next chunk. -/
theorem Steady.dispatch (hreturns : ∀ c, ∃ r, (work c).finish = .returned r)
    (h : Steady work deadline workers chunks t) {chunk : List ι} {rest : List (List ι)}
    (hfree : 0 < t.pool.free) (hwaiting : t.pool.waiting = chunk :: rest) :
    Steady work deadline workers chunks (t.dispatch work deadline chunk) ∧
      (t.dispatch work deadline chunk).pool.waiting = rest ∧
      t.pool.ended <+: (t.dispatch work deadline chunk).pool.ended := by
  have htaken : t.pool.taken = [] := h.orderly.looked
  have hne : t.pool.waiting ≠ [] := by simp [hwaiting]
  unfold Timeline.dispatch
  cases hpast : deadline.isPast t.now with
  | true =>
      have hturn : Turn deadline t.schedule
          { t.schedule with pool := (t.pool.step .take).step (.skip 0) } :=
        .skip hfree hne hpast
      simp only [if_true]
      rw [Pool.step_take_skip htaken hfree hwaiting] at hturn ⊢
      exact ⟨⟨h.reached.tail hturn, h.aligned, h.ahead, h.ends_append (Or.inl rfl)⟩, rfl,
        List.prefix_append _ _⟩
  | false =>
      have hturn : Turn deadline t.schedule
          { t.schedule with
            pool := (t.pool.step .take).step (.begin 0)
            begunAt := t.begunAt ++ [t.now] } :=
        .begin hfree hne hpast
      simp only [Bool.false_eq_true, if_false]
      rw [Pool.step_take_begin htaken hfree hwaiting] at hturn ⊢
      split
      · -- the work does not sleep, so it ends at once
        obtain ⟨r, hr⟩ := hreturns chunk
        have hlast : (t.pool.running ++ [chunk])[(t.pool.running ++ [chunk]).length - 1]? =
            some chunk := by simp
        have herase : (t.pool.running ++ [chunk]).eraseIdx
            ((t.pool.running ++ [chunk]).length - 1) = t.pool.running := by
          simp [List.eraseIdx_append_of_length_le]
        have hfinish := (h.reached.tail hturn).tail
          (.finish ((t.pool.running ++ [chunk]).length - 1) r)
        rw [Pool.step_finish hlast, herase, ← hr] at hfinish
        rw [Pool.step_finish hlast, herase]
        exact ⟨⟨hfinish, h.aligned, h.ahead, h.ends_append (Or.inr rfl)⟩, rfl,
          List.prefix_append _ _⟩
      · refine ⟨⟨h.reached.tail hturn, ?_, fun s hs => ?_, h.ends⟩, rfl, List.prefix_refl _⟩
        · simp [h.aligned]
        · rcases List.mem_append.1 hs with hs | hs
          · exact h.ahead s hs
          · rw [List.mem_singleton.1 hs]
            exact Nat.le_add_right _ _

/-- The free workers take chunks until there are no chunks or no free workers left. -/
theorem Steady.fill (hreturns : ∀ c, ∃ r, (work c).finish = .returned r) {left : List (List ι)}
    (h : Steady work deadline workers chunks t) (hwaiting : t.pool.waiting = left) :
    Steady work deadline workers chunks (fill work deadline left t) ∧
      ((fill work deadline left t).pool.waiting = [] ∨
        (fill work deadline left t).pool.free = 0) ∧
      t.pool.ended <+: (fill work deadline left t).pool.ended := by
  induction left generalizing t with
  | nil => exact ⟨h, Or.inl hwaiting, List.prefix_refl _⟩
  | cons chunk rest ih =>
      rw [Timeline.fill]
      split_ifs with hnone
      · exact ⟨h, Or.inr hnone, List.prefix_refl _⟩
      · obtain ⟨hsteady, hrest, hended⟩ := h.dispatch hreturns (Nat.pos_of_ne_zero hnone) hwaiting
        obtain ⟨hsteady, hfull, hmore⟩ := ih hsteady hrest
        exact ⟨hsteady, hfull, hended.trans hmore⟩

theorem earliest_eq_none {sleeping : List (Nat × WorkEnd α)} (h : earliest sleeping = none) :
    sleeping = [] := by
  cases sleeping with
  | nil => rfl
  | cons first rest =>
      unfold earliest at h
      split at h
      · split_ifs at h
      · cases h

/-- The earliest wake-up is one of those that are to come, and none is earlier. -/
theorem earliest_eq_some {sleeping : List (Nat × WorkEnd α)} {i : Nat} {s : Nat × WorkEnd α}
    (h : earliest sleeping = some (i, s)) :
    sleeping[i]? = some s ∧ ∀ s' ∈ sleeping, s.1 ≤ s'.1 := by
  induction sleeping generalizing i s with
  | nil => cases h
  | cons first rest ih =>
      unfold earliest at h
      cases hrest : earliest rest with
      | none =>
          rw [hrest] at h
          cases h
          simp [earliest_eq_none hrest]
      | some found =>
          obtain ⟨j, s'⟩ := found
          obtain ⟨hmem, hall⟩ := ih hrest
          simp only [hrest] at h
          split_ifs at h with hle
          · cases h
            refine ⟨rfl, fun s'' hs'' => ?_⟩
            rcases List.mem_cons.1 hs'' with rfl | hs''
            · exact Nat.le_refl _
            · exact Nat.le_trans hle (hall s'' hs'')
          · cases h
            refine ⟨hmem, fun s'' hs'' => ?_⟩
            rcases List.mem_cons.1 hs'' with rfl | hs''
            · omega
            · exact hall s'' hs''

/-- The clock moves to the next wake-up, if there is one, and the worker that wakes up ends its
chunk. -/
theorem Steady.wake (hreturns : ∀ c, ∃ r, (work c).finish = .returned r)
    (h : Steady work deadline workers chunks t)
    (hfull : t.pool.waiting = [] ∨ t.pool.free = 0) :
    Steady work deadline workers chunks (t.wake work deadline) ∧
      ((t.wake work deadline).pool.waiting = [] ∨ (t.wake work deadline).pool.free = 0) ∧
      (t.sleeping ≠ [] → t.pool.ended.length < (t.wake work deadline).pool.ended.length) := by
  unfold Timeline.wake
  cases hearliest : earliest t.sleeping with
  | none => exact ⟨h, hfull, fun hne => absurd (earliest_eq_none hearliest) hne⟩
  | some found =>
      obtain ⟨i, time, finish⟩ := found
      obtain ⟨hsleeper, hfirst⟩ := earliest_eq_some hearliest
      -- the chunk whose work wakes up
      obtain ⟨chunk, hchunk, rfl⟩ : ∃ chunk, t.pool.running[i]? = some chunk ∧
          (work chunk).finish = finish := by
        have hat := congrArg (·[i]?) h.aligned
        simp only [List.getElem?_map, hsleeper, Option.map_some] at hat
        exact Option.map_eq_some_iff.1 hat.symm
      obtain ⟨r, hr⟩ := hreturns chunk
      have hturns := (h.reached.tail (.wait time (h.ahead _ (List.mem_of_getElem? hsleeper)))).tail
        (.finish i r)
      rw [← hr] at hturns
      have hsteady : Steady work deadline workers chunks
          { t with
            pool := t.pool.step (.finish i (work chunk).finish)
            now := time
            sleeping := t.sleeping.eraseIdx i } := by
        refine ⟨hturns, ?_, fun s hs => hfirst s (List.mem_of_mem_eraseIdx hs), ?_⟩
        · rw [Pool.step_finish hchunk]
          show (t.sleeping.eraseIdx i).map (·.2) = _
          rw [← List.eraseIdx_map, h.aligned, List.eraseIdx_map]
        · rw [Pool.step_finish hchunk]
          exact h.ends_append (Or.inr rfl)
      obtain ⟨hsteady, hfull, hended⟩ := hsteady.fill hreturns rfl
      refine ⟨hsteady, hfull, fun _ => Nat.lt_of_lt_of_le ?_ hended.length_le⟩
      rw [Pool.step_finish hchunk]
      simp

theorem wake_of_sleeping_nil (work : List ι → Work α) (deadline : Deadline)
    (h : t.sleeping = []) : t.wake work deadline = t := by
  simp [wake, h, earliest]

/-- After some wake-ups nobody sleeps any more, or as many chunks have ended. -/
theorem steady_wakes (hreturns : ∀ c, ∃ r, (work c).finish = .returned r) (deadline : Deadline)
    (workers : Nat) (chunks : List (List ι)) (n : Nat) :
    let t := (List.range n).foldl (fun t _ => wake work deadline t)
      (Timeline.fill work deadline chunks (start workers chunks))
    Steady work deadline workers chunks t ∧ (t.pool.waiting = [] ∨ t.pool.free = 0) ∧
      (t.sleeping = [] ∨ n ≤ t.pool.ended.length) := by
  induction n with
  | zero =>
      obtain ⟨hsteady, hfull, -⟩ :=
        (steady_start work deadline workers chunks).fill hreturns rfl
      exact ⟨hsteady, hfull, Or.inr (Nat.zero_le _)⟩
  | succ n ih =>
      obtain ⟨hsteady, hfull, hn⟩ := ih
      rw [List.range_succ, List.foldl_append, List.foldl_cons, List.foldl_nil]
      by_cases hnone : sleeping ((List.range n).foldl (fun t _ => wake work deadline t)
          (Timeline.fill work deadline chunks (start workers chunks))) = []
      · rw [wake_of_sleeping_nil work deadline hnone]
        exact ⟨hsteady, hfull, Or.inl hnone⟩
      · obtain ⟨hsteady', hfull', hmore⟩ := hsteady.wake hreturns hfull
        have hless := hmore hnone
        have hn := hn.resolve_left hnone
        exact ⟨hsteady', hfull', Or.inr (by omega)⟩

/-- The timeline is a run in turns that comes to its end. -/
theorem run_done (hreturns : ∀ c, ∃ r, (work c).finish = .returned r) (deadline : Deadline)
    (workers : Nat) (chunks : List (List ι)) :
    Steady work deadline workers chunks (run work deadline workers chunks) ∧
      (run work deadline workers chunks).pool.isDone = true := by
  obtain ⟨hsteady, hfull, hend⟩ :=
    steady_wakes hreturns deadline workers chunks chunks.length
  refine ⟨hsteady, Pool.isDone_iff.2 ⟨hsteady.orderly.looked, ?_, hfull⟩⟩
  rcases hend with hnone | hended
  · have haligned := hsteady.aligned
    rw [hnone] at haligned
    exact List.map_eq_nil_iff.1 haligned.symm
  · exact hsteady.orderly.running_eq_nil hended

/-- On the timeline each chunk that was begun came to what the work on it comes to. -/
theorem cutAfter_run (duration : List ι → Nat) (result : List ι → Except StoreError (Table α))
    (deadline : Deadline) (hworkers : chunks ≠ [] → 0 < workers) :
    let t := run (fun c => ⟨duration c, .returned (result c)⟩) deadline workers chunks
    CutAfter t.pool.begun.length chunks
      ((chunks.take t.pool.begun.length).map fun c => (c, result c)) t.pool := by
  intro t
  obtain ⟨hsteady, hdone⟩ :
      Steady (fun c => ⟨duration c, .returned (result c)⟩) deadline workers chunks t ∧ _ :=
    run_done (fun c => ⟨result c, rfl⟩) deadline workers chunks
  obtain ⟨returns, hcut⟩ := hsteady.orderly.cutAfter hworkers hdone
  refine hcut.congr ?_
  have hresult : ∀ c ∈ returns, (c.1, result c.1) = c := by
    intro c hc
    have hmem : (c.1, ChunkEnd.worked (.returned c.2)) ∈ t.pool.ended :=
      hcut.ended.mem_iff.2 (List.mem_append_left _ (List.mem_map_of_mem hc))
    rcases hsteady.ends _ hmem with hskip | hworked
    · cases hskip
    · have hsame : c.2 = result c.1 := by simpa using hworked
      rw [← hsame]
  have hreturns : (returns.map (·.1)).map (fun c => (c, result c)) = returns := by
    rw [List.map_map]
    exact (List.map_congr_left hresult).trans (List.map_id _)
  rw [← hreturns]
  exact hcut.returned.map _

end Timeline

open Schedule

/-- Whatever the work of a scheduler on one thread is, at every moment the chunks that were handed
over are the first ones, in their order, each of them before the deadline; and those that were
skipped come next, after the deadline.  When all is done, every chunk that was not handed over is
recorded as too late, and what the work on each of the others came to is recorded, too.  For work
with known durations and results, the timeline is such a run, it comes to its end, and it records
these results. -/
theorem deadline_cuts_once (batchSize maxWorkers : Nat) (items : List ι) (deadline : Deadline) :
    let s := BatchScheduler.of batchSize maxWorkers
    let chunks := s.split items
    let workers := s.workersFor chunks.length
    (∀ (now : Nat) (t : Schedule ι α),
      ReflTransGen (Turn deadline) (.start workers chunks now) t →
        t.Orderly deadline workers chunks ∧
        (t.pool.isDone = true →
          ∃ returns, CutAfter t.pool.begun.length chunks returns t.pool)) ∧
    ∀ (duration : List ι → Nat) (result : List ι → Except StoreError (Table α)),
      let t := Timeline.run (fun c => ⟨duration c, .returned (result c)⟩) deadline workers chunks
      ReflTransGen (Turn deadline) (.start workers chunks 0) t.schedule ∧ t.pool.isDone = true ∧
        CutAfter t.pool.begun.length chunks
          ((chunks.take t.pool.begun.length).map fun c => (c, result c)) t.pool := by
  intro s chunks workers
  have hworkers : chunks ≠ [] → 0 < workers := fun hne =>
    Nat.lt_min.2 ⟨s.maxWorkers_pos, List.length_pos_iff.2 hne⟩
  refine ⟨fun now t hturns => ?_, fun duration result => ?_⟩
  · have horderly := (orderly_start deadline workers chunks now).turns hturns
    exact ⟨horderly, horderly.cutAfter hworkers⟩
  · obtain ⟨hsteady, hdone⟩ : Timeline.Steady
        (fun c => ⟨duration c, .returned (result c)⟩) deadline workers chunks _ ∧ _ :=
      Timeline.run_done (fun c => ⟨result c, rfl⟩) deadline workers chunks
    exact ⟨hsteady.reached, hdone, Timeline.cutAfter_run duration result deadline hworkers⟩

/-- One worker has worked on the first of two chunks for longer than there was time. -/
def secondTooLate : Schedule String Nat where
  pool :=
    { workers := 1
      waiting := []
      taken := []
      running := []
      ended := [(["a"], .worked (.returned (.ok .empty))), (["b"], .skipped)]
      begun := [["a"]] }
  now := 2
  begunAt := [0]

theorem split_one_by_one : (BatchScheduler.of 1 1).split ["a", "b"] = [["a"], ["b"]] := by
  simp [BatchScheduler.split, BatchScheduler.of, chunks]

theorem deadline_cuts_once_secondTooLate :
    ReflTransGen (Turn (some 1)) (.start 1 [["a"], ["b"]] 0) secondTooLate ∧
      secondTooLate.pool.isDone = true ∧
      ∃ returns, CutAfter 1 [["a"], ["b"]] returns secondTooLate.pool := by
  have hturns : ReflTransGen (Turn (some 1)) (.start 1 [["a"], ["b"]] 0) secondTooLate :=
    (((ReflTransGen.single (.begin (by decide) (by decide) rfl)).tail (.wait 2 (by decide))).tail
      (.finish 0 (.ok .empty))).tail (.skip (by decide) (by decide) rfl)
  have hcuts := (deadline_cuts_once 1 1 ["a", "b"] (some 1)).1 0 secondTooLate
  rw [split_one_by_one] at hcuts
  exact ⟨hturns, rfl, (hcuts hturns).2 rfl⟩

end InstanceHierarchy
