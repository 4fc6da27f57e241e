import InstanceHierarchy.Batch.Pool
import InstanceHierarchy.Context

/-!
# A pool on one thread

On one thread a worker runs until it sleeps, and the clock moves to the next wake-up when all
workers sleep.  Work on a chunk is known by how long it sleeps and how it ends.  A worker that is
woken ends its chunk and takes the next one at the same instant, so the chunks are begun in their
order.
-/

namespace InstanceHierarchy

/-- How long work on a chunk sleeps, and how it ends. -/
structure Work (α : Type) where
  duration : Nat
  finish : WorkEnd α

/-- A pool with its clock. -/
structure Timeline (ι α : Type) where
  pool : Pool ι α
  now : Nat
  /-- When each running chunk will end, and how. -/
  sleeping : List (Nat × WorkEnd α)
  /-- The most chunks that were worked on at once. -/
  peak : Nat
  /-- When the work on each begun chunk was begun. -/
  begunAt : List Nat

namespace Timeline

variable {ι α : Type}

/-- The first instant, before any worker runs. -/
def start (workers : Nat) (chunks : List (List ι)) : Timeline ι α :=
  ⟨.start workers chunks, 0, [], 0, []⟩

/-- Have a free worker take the next chunk and run until it sleeps or the chunk has ended. -/
def dispatch (work : List ι → Work α) (deadline : Deadline) (chunk : List ι)
    (t : Timeline ι α) : Timeline ι α :=
  let pool := t.pool.step .take
  if deadline.isPast t.now then { t with pool := pool.step (.skip 0) }
  else
    let pool := pool.step (.begin 0)
    let t := { t with peak := max t.peak pool.running.length, begunAt := t.begunAt ++ [t.now] }
    let w := work chunk
    -- the chunk begun just now is the last one in work
    if w.duration = 0 then
      { t with pool := pool.step (.finish (pool.running.length - 1) w.finish) }
    else { t with pool, sleeping := t.sleeping ++ [(t.now + w.duration, w.finish)] }

/-- Have the free workers take chunks while there are both. -/
def fill (work : List ι → Work α) (deadline : Deadline) :
    List (List ι) → Timeline ι α → Timeline ι α
  | [], t => t
  | chunk :: rest, t =>
      if t.pool.free = 0 then t else fill work deadline rest (dispatch work deadline chunk t)

/-- The place and time of the earliest wake-up. -/
def earliest : List (Nat × WorkEnd α) → Option (Nat × Nat × WorkEnd α)
  | [] => none
  | s :: rest =>
      match earliest rest with
      | some (i, s') => if s.1 ≤ s'.1 then some (0, s) else some (i + 1, s')
      | none => some (0, s)

/-- Move the clock to the next wake-up and have the woken worker run. -/
def wake (work : List ι → Work α) (deadline : Deadline) (t : Timeline ι α) : Timeline ι α :=
  match earliest t.sleeping with
  | none => t
  | some (i, time, finish) =>
      let t :=
        { t with
          pool := t.pool.step (.finish i finish)
          now := time
          sleeping := t.sleeping.eraseIdx i }
      fill work deadline t.pool.waiting t

/-- The timeline of some chunks up to the end; no more wake-ups are needed than there are
chunks. -/
def run (work : List ι → Work α) (deadline : Deadline) (workers : Nat) (chunks : List (List ι)) :
    Timeline ι α :=
  (List.range chunks.length).foldl (fun t _ => wake work deadline t)
    (fill work deadline chunks (start workers chunks))

end Timeline

/-- An item of rehearsed work: what it yields, after how long a sleep, and whether it fails or
kills its worker instead. -/
structure Rehearsal (α : Type) where
  key : String
  value : α
  delay : Nat
  failure : Option StoreError
  kills : Bool

namespace Rehearsal

/-- Work on items one after another, up to the first that fails or kills. -/
def work (items : List (Rehearsal α)) : Work α := go items 0 .empty
where
  go : List (Rehearsal α) → Nat → Table α → Work α
    | [], slept, results => ⟨slept, .returned (.ok results)⟩
    | item :: rest, slept, results =>
        let slept := slept + item.delay
        if item.kills then ⟨slept, .aborted item.key⟩
        else
          match item.failure with
          | some e => ⟨slept, .returned (.error e)⟩
          | none => go rest slept (results.insert item.key item.value)

end Rehearsal
end InstanceHierarchy
