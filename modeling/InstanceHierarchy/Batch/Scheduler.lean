import InstanceHierarchy.MachineNumber
import InstanceHierarchy.StoreError
import InstanceHierarchy.Table

/-!
# Splitting work into batches

A batch scheduler cuts a list into chunks of at most its batch size and has at most its number of
workers work on them.  How the chunks ended, in the order in which they ended, makes the outcome:
the tables of the successful ones merged, and every failure.  A failing chunk does not stop the
others.
-/

namespace InstanceHierarchy

/-- The consecutive pieces of a list that hold `size` items each, the last one possibly fewer.  A
size of zero counts as one. -/
def chunks (size : Nat) : List α → List (List α)
  | [] => []
  | x :: rest => (x :: rest.take (size - 1)) :: chunks size (rest.drop (size - 1))
  termination_by items => items.length
  decreasing_by
    simp only [List.length_drop, List.length_cons]
    omega

structure BatchScheduler where
  batchSize : Nat
  maxWorkers : Nat
  batchSize_pos : 0 < batchSize
  maxWorkers_pos : 0 < maxWorkers

namespace BatchScheduler

/-- The scheduler with some limits, of which zero counts as one. -/
def of (batchSize maxWorkers : Nat) : BatchScheduler :=
  ⟨max batchSize 1, max maxWorkers 1, Limit.max_one_pos batchSize, Limit.max_one_pos maxWorkers⟩

/-- The scheduler with the same number of workers and another batch size. -/
def withBatchSize (s : BatchScheduler) (batchSize : Nat) : BatchScheduler :=
  .of batchSize s.maxWorkers

/-- The chunks that the scheduler cuts a list into. -/
def split (s : BatchScheduler) (items : List α) : List (List α) := chunks s.batchSize items

/-- The number of workers for some number of chunks. -/
def workersFor (s : BatchScheduler) (batches : Nat) : Nat := min s.maxWorkers batches

end BatchScheduler

/-- How work on a chunk ends. -/
inductive WorkEnd (α : Type) where
  /-- It comes to a result. -/
  | returned (result : Except StoreError (Table α))
  /-- It kills the worker, with a message. -/
  | aborted (message : String)

/-- How a chunk ended. -/
inductive ChunkEnd (α : Type) where
  /-- The deadline had passed before the work began. -/
  | skipped
  | worked (finish : WorkEnd α)

structure BatchOutcome (α : Type) where
  results : Table α
  /-- The failures in the order in which they came. -/
  errors : List StoreError
  batches : Nat

namespace BatchOutcome

/-- The outcome before any chunk has ended. -/
def start (batches : Nat) : BatchOutcome α := ⟨.empty, [], batches⟩

/-- Add how one more chunk ended; of two values for one key the later wins. -/
def record (o : BatchOutcome α) : ChunkEnd α → BatchOutcome α
  | .skipped => { o with errors := o.errors ++ [.deadlineExceeded] }
  | .worked (.returned (.ok part)) => { o with results := o.results.union part }
  | .worked (.returned (.error e)) => { o with errors := o.errors ++ [e] }
  | .worked (.aborted m) =>
      { o with errors := o.errors ++ [.backend ("batch worker aborted: " ++ m)] }

/-- The outcome of chunks that ended in some order. -/
def ofEnds (batches : Nat) (ends : List (ChunkEnd α)) : BatchOutcome α :=
  ends.foldl record (start batches)

/-- The merged results, or the first failure if there is one. -/
def toExcept (o : BatchOutcome α) : Except StoreError (Table α) :=
  match o.errors with
  | [] => .ok o.results
  | e :: _ => .error e

end BatchOutcome
end InstanceHierarchy
