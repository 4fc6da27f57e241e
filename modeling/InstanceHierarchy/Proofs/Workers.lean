import InstanceHierarchy.Batch.Pool
import InstanceHierarchy.Proofs.Tables
import Mathlib.Data.List.Perm.Subperm

/-!
# What a pool of workers does with its chunks

However the workers of a pool take turns, every chunk is at one place: waiting, taken, skipped or
begun.  So no chunk is worked on twice, none is lost as long as a worker lives, and the outcome
accounts for all of them.  Every event that changes something uses up a part of what may still
happen, and only a pool that is done can change no more, so every run comes to its end.  The
deadline is not modelled here: a worker may skip or begin any chunk that it has taken, which covers
every deadline and every clock.

A worker that has died counts as working until its death is noticed, and a result as being worked
out until it is recorded.  So what is said about the chunks in work bounds the operations in flight
from above.
-/

namespace InstanceHierarchy

variable {ι α : Type}

namespace ChunkEnd

/-- The failure that a chunk leaves, if it does not succeed. -/
def error? : ChunkEnd α → Option StoreError
  | .skipped => some .deadlineExceeded
  | .worked (.returned (.ok _)) => none
  | .worked (.returned (.error e)) => some e
  | .worked (.aborted m) => some (.backend ("batch worker aborted: " ++ m))

/-- The part of the results that a chunk yields, if it succeeds. -/
def part? : ChunkEnd α → Option (Table α)
  | .worked (.returned (.ok part)) => some part
  | _ => none

theorem error?_eq_none {c : ChunkEnd α} :
    c.error? = none ↔ ∃ part, c = .worked (.returned (.ok part)) := by
  match c with
  | .skipped => simp [error?]
  | .worked (.returned (.ok _)) => simp [error?]
  | .worked (.returned (.error _)) => simp [error?]
  | .worked (.aborted _) => simp [error?]

/-- The work on the chunk failed without killing its worker. -/
def isFailure : ChunkEnd α → Bool
  | .worked (.returned (.error _)) => true
  | _ => false

/-- The work on the chunk killed its worker. -/
def isDeath : ChunkEnd α → Bool
  | .worked (.aborted _) => true
  | _ => false

/-- The chunk was skipped. -/
def isSkip : ChunkEnd α → Bool
  | .skipped => true
  | .worked _ => false

/-- A failure is left by a chunk for one of three reasons. -/
theorem length_error? (c : ChunkEnd α) :
    c.error?.toList.length = (if c.isSkip then 1 else 0) + (if c.isFailure then 1 else 0) +
      if c.isDeath then 1 else 0 := by
  match c with
  | .skipped => rfl
  | .worked (.returned (.ok _)) => rfl
  | .worked (.returned (.error _)) => rfl
  | .worked (.aborted _) => rfl

end ChunkEnd

/-! ## Outcomes -/

namespace BatchOutcome

theorem errors_record (o : BatchOutcome α) (c : ChunkEnd α) :
    (o.record c).errors = o.errors ++ c.error?.toList := by
  match c with
  | .skipped => rfl
  | .worked (.returned (.ok _)) => simp [record, ChunkEnd.error?]
  | .worked (.returned (.error _)) => rfl
  | .worked (.aborted _) => rfl

theorem get?_record (o : BatchOutcome α) (c : ChunkEnd α) (k : String) :
    (o.record c).results.get? k = (c.part?.bind (·.get? k)).or (o.results.get? k) := by
  match c with
  | .skipped => rfl
  | .worked (.returned (.ok part)) => exact Table.get?_union_or o.results part k
  | .worked (.returned (.error _)) => rfl
  | .worked (.aborted _) => rfl

/-- The failures are recorded in the order in which the chunks ended. -/
theorem errors_ofEnds (batches : Nat) (ends : List (ChunkEnd α)) :
    (ofEnds batches ends).errors = ends.filterMap ChunkEnd.error? := by
  have key : ∀ (ends : List (ChunkEnd α)) (o : BatchOutcome α),
      (ends.foldl record o).errors = o.errors ++ ends.filterMap ChunkEnd.error? := by
    intro ends
    induction ends with
    | nil => simp
    | cons c rest ih =>
        intro o
        rw [List.foldl_cons, ih, errors_record]
        cases hc : c.error? <;> simp [hc]
  exact key ends (start batches)

/-- A key has the value that the last successful chunk with the key gives it. -/
theorem get?_ofEnds (batches : Nat) (ends : List (ChunkEnd α)) (k : String) :
    (ofEnds batches ends).results.get? k =
      (ends.filterMap ChunkEnd.part?).reverse.findSome? (·.get? k) := by
  have key : ∀ (ends : List (ChunkEnd α)) (o : BatchOutcome α),
      (ends.foldl record o).results.get? k =
        ((ends.filterMap ChunkEnd.part?).reverse.findSome? (·.get? k)).or (o.results.get? k) := by
    intro ends
    induction ends with
    | nil => exact fun o => rfl
    | cons c rest ih =>
        intro o
        rw [List.foldl_cons, ih, get?_record]
        cases hc : c.part? with
        | none => simp [hc]
        | some part => simp [hc, List.findSome?_append, Option.or_assoc]
  rw [ofEnds, key]
  exact Option.or_none

/-- The first recorded failure is the failure of the whole. -/
theorem toExcept_eq_error {o : BatchOutcome α} {e : StoreError} :
    o.toExcept = .error e ↔ o.errors.head? = some e := by
  unfold toExcept
  cases o.errors <;> simp

theorem toExcept_eq_ok {o : BatchOutcome α} {t : Table α} :
    o.toExcept = .ok t ↔ o.errors = [] ∧ o.results = t := by
  unfold toExcept
  cases o.errors <;> simp

end BatchOutcome

namespace Pool

/-! ## Where the chunks are -/

/-- The chunks that were skipped, in the order in which they were. -/
def skipped (p : Pool ι α) : List (List ι) :=
  (p.ended.filter fun e => e.2.isSkip).map (·.1)

/-- The chunks whose work has ended, in the order in which it did. -/
def worked (p : Pool ι α) : List (List ι) :=
  (p.ended.filter fun e => !e.2.isSkip).map (·.1)

/-- The number of chunks whose work failed without killing its worker. -/
def failures (p : Pool ι α) : Nat := p.ended.countP fun e => e.2.isFailure

/-- The parts of the results, in the order in which they came. -/
def parts (p : Pool ι α) : List (Table α) := p.ended.filterMap fun e => e.2.part?

theorem deaths_eq (p : Pool ι α) : p.deaths = p.ended.countP fun e => e.2.isDeath := by
  unfold deaths
  rw [List.countP_eq_length_filter]
  rfl

/-! ### When one more chunk ends -/

section Ending

variable {p q : Pool ι α} {chunk : List ι} {how : ChunkEnd α}

theorem skipped_of_ended (h : q.ended = p.ended ++ [(chunk, how)]) :
    q.skipped = p.skipped ++ if how.isSkip then [chunk] else [] := by
  unfold skipped
  rw [h]
  cases hskip : how.isSkip <;> simp [hskip]

theorem worked_of_ended (h : q.ended = p.ended ++ [(chunk, how)]) :
    q.worked = p.worked ++ if how.isSkip then [] else [chunk] := by
  unfold worked
  rw [h]
  cases hskip : how.isSkip <;> simp [hskip]

theorem deaths_of_ended (h : q.ended = p.ended ++ [(chunk, how)]) :
    q.deaths = p.deaths + if how.isDeath then 1 else 0 := by
  rw [deaths_eq, deaths_eq, h]
  cases hdeath : how.isDeath <;> simp [hdeath]

end Ending

/-! ## What one event does -/

section Possible

variable {p : Pool ι α} {chunk : List ι} {i : Nat}

theorem step_take {rest : List (List ι)} (hfree : 0 < p.free) (hwaiting : p.waiting = chunk :: rest) :
    p.step .take = { p with waiting := rest, taken := p.taken ++ [chunk] } := by
  cases hn : p.free with
  | zero => omega
  | succ n => simp only [step, hn, hwaiting]

theorem step_skip (hchunk : p.taken[i]? = some chunk) :
    p.step (.skip i) =
      { p with taken := p.taken.eraseIdx i, ended := p.ended ++ [(chunk, .skipped)] } := by
  simp only [step, hchunk]

theorem step_begin (hchunk : p.taken[i]? = some chunk) :
    p.step (.begin i) =
      { p with
        taken := p.taken.eraseIdx i
        running := p.running ++ [chunk]
        begun := p.begun ++ [chunk] } := by
  simp only [step, hchunk]

theorem step_finish {how : WorkEnd α} (hchunk : p.running[i]? = some chunk) :
    p.step (.finish i how) =
      { p with running := p.running.eraseIdx i, ended := p.ended ++ [(chunk, .worked how)] } := by
  simp only [step, hchunk]

/-! An event that is possible changes the pool. -/

theorem step_take_ne {rest : List (List ι)} (hfree : 0 < p.free)
    (hwaiting : p.waiting = chunk :: rest) : p.step .take ≠ p := by
  rw [step_take hfree hwaiting]
  intro heq
  simpa [hwaiting] using congrArg Pool.waiting heq

theorem step_skip_ne (hchunk : p.taken[i]? = some chunk) : p.step (.skip i) ≠ p := by
  rw [step_skip hchunk]
  intro heq
  simpa using congrArg Pool.ended heq

theorem step_begin_ne (hchunk : p.taken[i]? = some chunk) : p.step (.begin i) ≠ p := by
  rw [step_begin hchunk]
  intro heq
  simpa using congrArg Pool.begun heq

theorem step_finish_ne {how : WorkEnd α} (hchunk : p.running[i]? = some chunk) :
    p.step (.finish i how) ≠ p := by
  rw [step_finish hchunk]
  intro heq
  simpa using congrArg Pool.ended heq

end Possible

/-- A list is what stands at one of its places and what is left without that, in some order. -/
theorem perm_eraseIdx {xs : List ι} {x : ι} {i : Nat} (h : xs[i]? = some x) :
    xs.Perm (x :: xs.eraseIdx i) := by
  obtain ⟨hi, rfl⟩ := List.getElem?_eq_some_iff.1 h
  exact (List.getElem_cons_eraseIdx_perm hi).symm

/-- What an event can come to. -/
theorem step_cases (p : Pool ι α) (e : Event α) :
    p.step e = p ∨
      (∃ chunk rest, 0 < p.free ∧ p.waiting = chunk :: rest ∧
        p.step e = { p with waiting := rest, taken := p.taken ++ [chunk] }) ∨
      (∃ chunk left, p.taken.Perm (chunk :: left) ∧
        p.step e = { p with taken := left, ended := p.ended ++ [(chunk, .skipped)] }) ∨
      (∃ chunk left, p.taken.Perm (chunk :: left) ∧
        p.step e = { p with
          taken := left, running := p.running ++ [chunk], begun := p.begun ++ [chunk] }) ∨
      ∃ chunk left how, p.running.Perm (chunk :: left) ∧
        p.step e = { p with running := left, ended := p.ended ++ [(chunk, .worked how)] } := by
  cases e with
  | take =>
      cases hfree : p.free with
      | zero => exact Or.inl (by simp only [step, hfree])
      | succ n =>
          cases hwaiting : p.waiting with
          | nil => exact Or.inl (by simp only [step, hfree, hwaiting])
          | cons chunk rest =>
              have hpos : 0 < p.free := by omega
              exact Or.inr (Or.inl ⟨chunk, rest, Nat.succ_pos n, rfl, step_take hpos hwaiting⟩)
  | skip i =>
      cases h : p.taken[i]? with
      | none => exact Or.inl (by simp only [step, h])
      | some chunk => exact Or.inr (Or.inr (Or.inl ⟨chunk, _, perm_eraseIdx h, step_skip h⟩))
  | begin i =>
      cases h : p.taken[i]? with
      | none => exact Or.inl (by simp only [step, h])
      | some chunk =>
          exact Or.inr (Or.inr (Or.inr (Or.inl ⟨chunk, _, perm_eraseIdx h, step_begin h⟩)))
  | finish i how =>
      cases h : p.running[i]? with
      | none => exact Or.inl (by simp only [step, h])
      | some chunk =>
          exact Or.inr (Or.inr (Or.inr (Or.inr ⟨chunk, _, how, perm_eraseIdx h, step_finish h⟩)))

/-- Every chunk is at one place, and every worker has one chunk at most. -/
structure Sound (workers : Nat) (chunks : List (List ι)) (p : Pool ι α) : Prop where
  placed : (p.begun ++ p.skipped ++ p.taken ++ p.waiting).Perm chunks
  working : (p.worked ++ p.running).Perm p.begun
  staffed : p.taken.length + p.running.length + p.deaths ≤ workers
  workers : p.workers = workers

theorem sound_start (workers : Nat) (chunks : List (List ι)) :
    Sound workers chunks (start workers chunks : Pool ι α) :=
  ⟨.refl chunks, .nil, Nat.zero_le workers, rfl⟩

theorem Sound.step {workers : Nat} {chunks : List (List ι)} {p : Pool ι α}
    (h : Sound workers chunks p) (e : Event α) : Sound workers chunks (p.step e) := by
  classical
  have hplaced := List.perm_iff_count.1 h.placed
  have hworking := List.perm_iff_count.1 h.working
  have hstaffed := h.staffed
  have hworkers := h.workers
  simp only [List.count_append] at hplaced hworking
  -- for each chunk, its places after the event are counted from those before it
  rcases p.step_cases e with heq | ⟨chunk, rest, hfree, hwaiting, heq⟩ | ⟨chunk, left, htaken, heq⟩ |
    ⟨chunk, left, htaken, heq⟩ | ⟨chunk, left, how, hrunning, heq⟩ <;> rw [heq]
  · exact h
  · refine ⟨List.perm_iff_count.2 fun c => ?_, h.working, ?_, hworkers⟩
    · have hc := hplaced c
      rw [hwaiting, List.count_cons] at hc
      simp only [skipped, List.count_append, List.count_singleton] at hc ⊢
      omega
    · unfold free at hfree
      simp only [deaths, List.length_append, List.length_singleton] at hfree hstaffed ⊢
      omega
  · have hlength := htaken.length_eq
    rw [List.length_cons] at hlength
    refine ⟨List.perm_iff_count.2 fun c => ?_, ?_, ?_, hworkers⟩
    · have hc := hplaced c
      rw [htaken.count_eq, List.count_cons] at hc
      rw [skipped_of_ended rfl, ChunkEnd.isSkip, if_pos rfl]
      simp only [List.count_append, List.count_singleton]
      omega
    · rw [worked_of_ended rfl, ChunkEnd.isSkip, if_pos rfl, List.append_nil]
      exact h.working
    · have halive : (ChunkEnd.skipped : ChunkEnd α).isDeath = false := rfl
      rw [deaths_of_ended rfl, halive, if_neg Bool.false_ne_true]
      show left.length + p.running.length + (p.deaths + 0) ≤ workers
      omega
  · have hlength := htaken.length_eq
    rw [List.length_cons] at hlength
    refine ⟨List.perm_iff_count.2 fun c => ?_, List.perm_iff_count.2 fun c => ?_, ?_, hworkers⟩
    · have hc := hplaced c
      rw [htaken.count_eq, List.count_cons] at hc
      simp only [skipped, List.count_append, List.count_singleton] at hc ⊢
      omega
    · have hc := hworking c
      simp only [worked, List.count_append, List.count_singleton] at hc ⊢
      omega
    · simp only [deaths, List.length_append, List.length_singleton] at hstaffed ⊢
      omega
  · have hlength := hrunning.length_eq
    rw [List.length_cons] at hlength
    refine ⟨?_, List.perm_iff_count.2 fun c => ?_, ?_, hworkers⟩
    · rw [skipped_of_ended rfl, ChunkEnd.isSkip, if_neg Bool.false_ne_true, List.append_nil]
      exact h.placed
    · have hc := hworking c
      rw [hrunning.count_eq, List.count_cons] at hc
      rw [worked_of_ended rfl, ChunkEnd.isSkip, if_neg Bool.false_ne_true]
      simp only [List.count_append, List.count_singleton]
      omega
    · -- at most one worker dies
      rw [deaths_of_ended rfl]
      show p.taken.length + left.length + _ ≤ workers
      split <;> omega

theorem Sound.run {workers : Nat} {chunks : List (List ι)} {p : Pool ι α}
    (h : Sound workers chunks p) (events : List (Event α)) :
    Sound workers chunks (p.run events) :=
  List.foldlRecOn events Pool.step h fun _ hp e _ => hp.step e

/-! ## The end -/

theorem isDone_iff {p : Pool ι α} :
    p.isDone = true ↔ p.taken = [] ∧ p.running = [] ∧ (p.waiting = [] ∨ p.free = 0) := by
  unfold isDone
  simp [List.isEmpty_iff, and_assoc]

/-- A pool that is not done can go on, and whatever chunk ends then may end as wanted, except that a
chunk that is worked on cannot be skipped any more. -/
theorem exists_step {p : Pool ι α} {how : List ι → ChunkEnd α}
    (hwork : ∀ chunk ∈ p.running, (how chunk).isSkip = false) (hdone : ¬ p.isDone = true) :
    ∃ e, p.step e ≠ p ∧ (∀ chunk ∈ (p.step e).running, (how chunk).isSkip = false) ∧
      ∃ rest, (p.step e).ended = p.ended ++ rest ∧ ∀ c ∈ rest, c.2 = how c.1 := by
  cases htaken : p.taken with
  | cons chunk rest =>
      have hchunk : p.taken[0]? = some chunk := by rw [htaken, List.getElem?_cons_zero]
      cases hhow : how chunk with
      | skipped =>
          refine ⟨.skip 0, step_skip_ne hchunk, ?_, [(chunk, .skipped)], ?_, by simp [hhow]⟩ <;>
            rw [step_skip hchunk]
          exact hwork
      | worked finish =>
          refine ⟨.begin 0, step_begin_ne hchunk, ?_, [], ?_, by simp⟩ <;> rw [step_begin hchunk]
          · refine List.forall_mem_append.2 ⟨hwork, List.forall_mem_singleton.2 ?_⟩
            rw [hhow]
            rfl
          · exact (List.append_nil _).symm
  | nil =>
      cases hrunning : p.running with
      | cons chunk rest =>
          have hchunk : p.running[0]? = some chunk := by rw [hrunning, List.getElem?_cons_zero]
          cases hhow : how chunk with
          | skipped =>
              have hskip := hwork chunk (List.mem_of_getElem? hchunk)
              rw [hhow] at hskip
              cases hskip
          | worked finish =>
              refine ⟨.finish 0 finish, step_finish_ne hchunk, ?_, [(chunk, .worked finish)], ?_,
                by simp [hhow]⟩ <;> rw [step_finish hchunk]
              exact fun c hc => hwork c (List.mem_of_mem_eraseIdx hc)
      | nil =>
          -- no worker has a chunk, so one is free and a chunk waits
          cases hwaiting : p.waiting with
          | nil => exact absurd (isDone_iff.2 ⟨htaken, hrunning, Or.inl hwaiting⟩) hdone
          | cons chunk rest =>
              have hfree : 0 < p.free := Nat.pos_of_ne_zero fun hzero =>
                hdone (isDone_iff.2 ⟨htaken, hrunning, Or.inr hzero⟩)
              refine ⟨.take, step_take_ne hfree hwaiting, ?_, [], ?_, by simp⟩ <;>
                rw [step_take hfree hwaiting]
              · exact hwork
              · exact (List.append_nil _).symm

/-- A pool is done when nothing can happen any more. -/
theorem isDone_iff_stuck {p : Pool ι α} : p.isDone = true ↔ ∀ e, p.step e = p := by
  constructor
  · intro hdone e
    obtain ⟨htaken, hrunning, hend⟩ := isDone_iff.1 hdone
    rcases p.step_cases e with heq | ⟨chunk, rest, hfree, hwaiting, -⟩ | ⟨chunk, left, hperm, -⟩ |
      ⟨chunk, left, hperm, -⟩ | ⟨chunk, left, how, hperm, -⟩
    · exact heq
    · rcases hend with hnone | hzero
      · rw [hnone] at hwaiting
        cases hwaiting
      · omega
    · rw [htaken] at hperm
      exact absurd hperm.length_eq (by simp)
    · rw [htaken] at hperm
      exact absurd hperm.length_eq (by simp)
    · rw [hrunning] at hperm
      exact absurd hperm.length_eq (by simp)
  · intro hstuck
    by_contra hdone
    let how : List ι → ChunkEnd α := fun _ => .worked (.aborted "")
    have hwork : ∀ chunk ∈ p.running, (how chunk).isSkip = false := fun _ _ => rfl
    obtain ⟨e, he, -⟩ := exists_step hwork hdone
    exact he (hstuck e)

/-- How many events may still happen. -/
def left (p : Pool ι α) : Nat := 3 * p.waiting.length + 2 * p.taken.length + p.running.length

/-- An event that changes something leaves less to happen. -/
theorem left_step {p : Pool ι α} {e : Event α} (h : p.step e ≠ p) : (p.step e).left < p.left := by
  unfold left
  rcases p.step_cases e with heq | ⟨chunk, rest, -, hwaiting, heq⟩ | ⟨chunk, left, hperm, heq⟩ |
    ⟨chunk, left, hperm, heq⟩ | ⟨chunk, left, how, hperm, heq⟩
  · exact absurd heq h
  · rw [heq, hwaiting]
    simp only [List.length_append, List.length_cons, List.length_nil]
    omega
  · rw [heq, hperm.length_eq]
    simp only [List.length_cons]
    omega
  · rw [heq, hperm.length_eq]
    simp only [List.length_append, List.length_cons, List.length_nil]
    omega
  · rw [heq, hperm.length_eq]
    simp only [List.length_cons]
    omega

/-- Wherever a pool is, it can come to its end, with every chunk ending as wanted that has not ended
yet. -/
theorem exists_done {p : Pool ι α} {how : List ι → ChunkEnd α}
    (hwork : ∀ chunk ∈ p.running, (how chunk).isSkip = false) :
    ∃ events, (p.run events).isDone = true ∧
      ∃ rest, (p.run events).ended = p.ended ++ rest ∧ ∀ c ∈ rest, c.2 = how c.1 := by
  -- every event leaves less to happen
  induction hn : p.left using Nat.strongRecOn generalizing p with
  | _ n ih =>
      by_cases hdone : p.isDone = true
      · exact ⟨[], hdone, [], (List.append_nil _).symm, fun c hc => by cases hc⟩
      · obtain ⟨e, he, hwork', first, hfirst, hhow⟩ := exists_step hwork hdone
        obtain ⟨events, hend, rest, hrest, hhow'⟩ := ih _ (hn ▸ left_step he) hwork' rfl
        refine ⟨e :: events, hend, first ++ rest, ?_, fun c hc => ?_⟩
        · show ((p.step e).run events).ended = _
          rw [hrest, hfirst, List.append_assoc]
        · rcases List.mem_append.1 hc with hc | hc
          · exact hhow c hc
          · exact hhow' c hc

/-- At the end, no chunk is left over unless every worker died. -/
theorem Sound.done {workers : Nat} {chunks : List (List ι)} {p : Pool ι α}
    (h : Sound workers chunks p) (hdone : p.isDone = true) :
    p.worked.Perm p.begun ∧ ((p.begun ++ p.skipped).Perm chunks ∨ p.deaths = workers) := by
  obtain ⟨htaken, hrunning, hend⟩ := isDone_iff.1 hdone
  have hplaced := h.placed
  have hworking := h.working
  have hstaffed := h.staffed
  rw [htaken, List.append_nil] at hplaced
  rw [hrunning, List.append_nil] at hworking
  refine ⟨hworking, ?_⟩
  rcases hend with hnone | hzero
  · rw [hnone, List.append_nil] at hplaced
    exact Or.inl hplaced
  · unfold free at hzero
    rw [htaken, hrunning, h.workers] at hzero
    simp only [List.length_nil, Nat.sub_zero] at hzero
    exact Or.inr (by omega)

/-- Whatever has ended left a failure or a part of the results. -/
theorem errors_outcome (p : Pool ι α) (batches : Nat) :
    (p.outcome batches).errors = p.ended.filterMap fun e => e.2.error? := by
  unfold outcome
  rw [BatchOutcome.errors_ofEnds, List.filterMap_map]
  rfl

theorem get?_outcome (p : Pool ι α) (batches : Nat) (k : String) :
    (p.outcome batches).results.get? k = p.parts.reverse.findSome? (·.get? k) := by
  unfold outcome parts
  rw [BatchOutcome.get?_ofEnds, List.filterMap_map]
  rfl

/-- The failures are those of chunks that were skipped, failed, or killed their worker. -/
theorem length_errors (p : Pool ι α) (batches : Nat) :
    (p.outcome batches).errors.length = p.skipped.length + p.failures + p.deaths := by
  rw [errors_outcome, deaths_eq]
  unfold skipped failures
  rw [List.length_map, ← List.countP_eq_length_filter]
  induction p.ended with
  | nil => rfl
  | cons e rest ih =>
      have hone := e.2.length_error?
      have hcons : ((e :: rest).filterMap fun e => e.2.error?).length =
          e.2.error?.toList.length + (rest.filterMap fun e => e.2.error?).length := by
        cases he : e.2.error? <;> simp [he, Nat.add_comm]
      rw [hcons, List.countP_cons, List.countP_cons, List.countP_cons]
      omega

/-! ## Schedulers -/

/-- Some chunks are the consecutive pieces of a list, of a size at most. -/
structure Cut (size : Nat) (items : List ι) (chunks : List (List ι)) : Prop where
  flatten : chunks.flatten = items
  nonempty : ∀ chunk ∈ chunks, chunk ≠ []
  bounded : ∀ chunk ∈ chunks, chunk.length ≤ size
  /-- The length of the list divided by the size, rounded up. -/
  count : chunks.length = (items.length + size - 1) / size

/-- The books of a pool that works on some chunks with a limited number of workers. -/
structure Accounts (limit : Nat) (chunks : List (List ι)) (p : Pool ι α) : Prop where
  /-- No chunk is begun or skipped more than once. -/
  once : (p.begun ++ p.skipped).Subperm chunks
  inFlight : p.running.length ≤ min limit chunks.length
  /-- The failures are recorded as they come, -/
  errors : (p.outcome chunks.length).errors = p.ended.filterMap fun e => e.2.error?
  /-- one for each chunk that was skipped or failed and for each worker that died. -/
  counted : (p.outcome chunks.length).errors.length = p.skipped.length + p.failures + p.deaths
  /-- Of the parts of the results the later ones win. -/
  results : ∀ k, (p.outcome chunks.length).results.get? k = p.parts.reverse.findSome? (·.get? k)
  /-- Unless every worker died, every chunk is begun or skipped in the end. -/
  complete : p.isDone = true →
    (p.begun ++ p.skipped).Perm chunks ∨ (0 < p.workers ∧ p.deaths = p.workers)
  /-- The whole succeeds if every chunk was worked on and succeeded, -/
  ok : p.isDone = true → ((∃ t, (p.outcome chunks.length).toExcept = .ok t) ↔
    p.begun.Perm chunks ∧ p.worked.Perm chunks ∧
      ∀ e ∈ p.ended, ∃ part, e.2 = .worked (.returned (.ok part)))
  /-- and otherwise it fails as the first failure says. -/
  failed : ∀ e, (p.outcome chunks.length).toExcept = .error e ↔
    (p.outcome chunks.length).errors.head? = some e
  /-- Every event that changes something leaves less to happen, -/
  shrinks : ∀ e, p.step e ≠ p → (p.step e).left < p.left
  /-- and as long as the pool is not done, something can change. -/
  stuck : p.isDone = true ↔ ∀ e, p.step e = p
  /-- The pool can come to its end, with every chunk that has not ended yet ending in any way,
  except that a chunk that is worked on cannot be skipped any more. -/
  ends : ∀ how : List ι → ChunkEnd α, (∀ chunk ∈ p.running, (how chunk).isSkip = false) →
    ∃ events, (p.run events).isDone = true ∧
      ∃ rest, (p.run events).ended = p.ended ++ rest ∧ ∀ c ∈ rest, c.2 = how c.1

theorem cut_split (batchSize maxWorkers : Nat) (items : List ι) :
    Cut (max batchSize 1) items ((BatchScheduler.of batchSize maxWorkers).split items) := by
  have hpos := Limit.max_one_pos batchSize
  refine ⟨flatten_chunks _ items, fun chunk h => ne_nil_of_mem_chunks h, fun chunk h => ?_,
    length_chunks hpos items⟩
  have hlength : chunk.length ≤ max (max batchSize 1) 1 := length_le_of_mem_chunks h
  omega

variable {workers : Nat} {chunks : List (List ι)} {p : Pool ι α}

theorem Sound.once (h : Sound workers chunks p) : (p.begun ++ p.skipped).Subperm chunks := by
  have hplaced := h.placed
  rw [List.append_assoc] at hplaced
  exact (List.sublist_append_left _ _).subperm.trans hplaced.subperm

/-- A pool without failures that is done has worked on every chunk. -/
theorem Sound.worked_all (h : Sound workers chunks p) (hworkers : chunks ≠ [] → 0 < workers)
    (hdone : p.isDone = true) (hnone : (p.outcome chunks.length).errors = []) :
    p.begun.Perm chunks ∧ p.worked.Perm chunks := by
  have hlength := length_errors p chunks.length
  rw [hnone, List.length_nil] at hlength
  have hskipped : p.skipped = [] := List.eq_nil_of_length_eq_zero (by omega)
  obtain ⟨hworked, hbegun | hdead⟩ := h.done hdone
  · rw [hskipped, List.append_nil] at hbegun
    exact ⟨hbegun, hworked.trans hbegun⟩
  · -- no worker died, so there are none, and hence no chunks
    have hempty : chunks = [] := by
      by_contra hne
      have hpos := hworkers hne
      omega
    have hbegun : p.begun = [] := by
      have honce := h.once
      rw [hempty, List.subperm_nil] at honce
      exact (List.append_eq_nil_iff.1 honce).1
    rw [hbegun] at hworked ⊢
    rw [hempty]
    exact ⟨.nil, hworked⟩

theorem Sound.accounts {limit : Nat} (h : Sound workers chunks p)
    (hworkers : workers = min limit chunks.length) (hlimit : 0 < limit) :
    Accounts limit chunks p := by
  have hpos : chunks ≠ [] → 0 < workers := by
    intro hne
    have hlength := List.length_pos_iff.2 hne
    omega
  refine ⟨h.once, ?_, errors_outcome p _, length_errors p _, get?_outcome p _, fun hdone => ?_,
    fun hdone => ?_, fun e => BatchOutcome.toExcept_eq_error, fun e => left_step,
    isDone_iff_stuck, fun how => exists_done⟩
  · have hstaffed := h.staffed
    omega
  · rcases (h.done hdone).2 with hall | hdead
    · exact Or.inl hall
    · by_cases hempty : chunks = []
      · have honce := h.once
        rw [hempty] at honce ⊢
        rw [List.subperm_nil.1 honce]
        exact Or.inl .nil
      · rw [h.workers]
        exact Or.inr ⟨hpos hempty, hdead⟩
  · constructor
    · rintro ⟨t, ht⟩
      have hnone := (BatchOutcome.toExcept_eq_ok.1 ht).1
      obtain ⟨hbegun, hworked⟩ := h.worked_all hpos hdone hnone
      refine ⟨hbegun, hworked, fun e he => ?_⟩
      rw [errors_outcome] at hnone
      exact ChunkEnd.error?_eq_none.1 (List.filterMap_eq_nil_iff.1 hnone e he)
    · rintro ⟨-, -, hall⟩
      refine ⟨_, BatchOutcome.toExcept_eq_ok.2 ⟨?_, rfl⟩⟩
      rw [errors_outcome, List.filterMap_eq_nil_iff]
      exact fun e he => ChunkEnd.error?_eq_none.2 (hall e he)

/-- However the workers of a scheduler's pool take turns, the books are right. -/
theorem accounts_run (batchSize maxWorkers : Nat) (items : List ι) (events : List (Event α)) :
    let s := BatchScheduler.of batchSize maxWorkers
    let chunks := s.split items
    Cut (max batchSize 1) items chunks ∧ Accounts (max maxWorkers 1) chunks
      ((start (s.workersFor chunks.length) chunks : Pool ι α).run events) := by
  intro s chunks
  have hsound := (sound_start (s.workersFor chunks.length) chunks).run events
  exact ⟨cut_split batchSize maxWorkers items,
    hsound.accounts rfl (Limit.max_one_pos maxWorkers)⟩

/-- A single worker that dies leaves the other chunks waiting. -/
example : (start 1 [["a"], ["b"]] : Pool String Nat).run
    [.take, .begin 0, .finish 0 (.aborted "a"), .take] =
      ⟨1, [["b"]], [], [], [(["a"], .worked (.aborted "a"))], [["a"]]⟩ := rfl

end Pool
end InstanceHierarchy
