import InstanceHierarchy.Batch.Scheduler

/-!
# A pool of workers

Workers share a queue of chunks.  A free worker takes the next chunk, looks at the deadline, and
either skips the chunk or works on it; afterwards it is free again, unless the work killed it.
Workers have no memory, so the state of the pool holds no more than how many there are and where
each chunk is: waiting, taken by a worker that has not looked at the deadline yet, being worked on,
or ended.  Every list of events is an interleaving of the workers; an event that is not possible
changes nothing.
-/

namespace InstanceHierarchy

structure Pool (ι α : Type) where
  workers : Nat
  /-- The chunks that no worker has taken, next first. -/
  waiting : List (List ι)
  /-- The chunks whose workers have yet to look at the deadline. -/
  taken : List (List ι)
  /-- The chunks that are worked on. -/
  running : List (List ι)
  /-- The chunks that ended and how they did, in the order in which they ended. -/
  ended : List (List ι × ChunkEnd α)
  /-- The chunks whose work was begun, in the order in which it was begun. -/
  begun : List (List ι)

namespace Pool

variable {ι α : Type}

/-- A pool before its workers run. -/
def start (workers : Nat) (chunks : List (List ι)) : Pool ι α := ⟨workers, chunks, [], [], [], []⟩

/-- The number of workers that died. -/
def deaths (p : Pool ι α) : Nat :=
  (p.ended.filter fun e =>
    match e.2 with
    | .worked (.aborted _) => true
    | _ => false).length

/-- The number of workers that have no chunk. -/
def free (p : Pool ι α) : Nat := p.workers - p.taken.length - p.running.length - p.deaths

/-- The outcome of the chunks that have ended. -/
def outcome (p : Pool ι α) (batches : Nat) : BatchOutcome α :=
  .ofEnds batches (p.ended.map (·.2))

/-- What one worker does next.  Chunks in work are named by their place among those at the same
stage. -/
inductive Event (α : Type) where
  /-- A free worker takes the next chunk. -/
  | take
  /-- A worker finds the deadline passed and skips its chunk. -/
  | skip (i : Nat)
  /-- A worker finds time left and begins to work on its chunk. -/
  | begin (i : Nat)
  /-- A worker's work on its chunk ends. -/
  | finish (i : Nat) (how : WorkEnd α)

/-- The pool after an event. -/
def step (p : Pool ι α) : Event α → Pool ι α
  | .take =>
      match p.free, p.waiting with
      | _ + 1, chunk :: rest => { p with waiting := rest, taken := p.taken ++ [chunk] }
      | _, _ => p
  | .skip i =>
      match p.taken[i]? with
      | some chunk =>
          { p with taken := p.taken.eraseIdx i, ended := p.ended ++ [(chunk, .skipped)] }
      | none => p
  | .begin i =>
      match p.taken[i]? with
      | some chunk =>
          { p with
            taken := p.taken.eraseIdx i
            running := p.running ++ [chunk]
            begun := p.begun ++ [chunk] }
      | none => p
  | .finish i how =>
      match p.running[i]? with
      | some chunk =>
          { p with
            running := p.running.eraseIdx i
            ended := p.ended ++ [(chunk, .worked how)] }
      | none => p

/-- The pool after some events. -/
def run (p : Pool ι α) (events : List (Event α)) : Pool ι α := events.foldl step p

/-- No worker has a chunk, and either no chunk waits or no worker lives. -/
def isDone (p : Pool ι α) : Bool :=
  p.taken.isEmpty && p.running.isEmpty && (p.waiting.isEmpty || p.free == 0)

end Pool
end InstanceHierarchy
