import InstanceHierarchy.Batch.Scheduler
import InstanceHierarchy.Store.Program

/-!
# Statements in batches

A long list is worked on by one statement for each of its chunks, sent on the workers of a batch
scheduler.  Every failure is reported with the statement that met it, except that a chunk skipped
after the deadline has none.

In this way the generic nodes with some codes, and the ancestors of such nodes, are asked for in
batches of codes.  What is found is held by node id, so a node that several batches report is held
once.
-/

namespace InstanceHierarchy

/-- How the chunk of a call ended, when its reply is read as a table. -/
def Completion.chunkEnd {m : Method} (read : m.Reply → Except StoreError (Table α))
    (c : Completion m) : ChunkEnd α :=
  match c.result with
  | none => .skipped
  | some result =>
      .worked (.returned ((result.bind read).mapError (·.withStatement c.statement.text)))

namespace StoreM

/-- Send several statements on the workers of a scheduler; the tables read from the replies,
merged, or the first failure. -/
def callAll (s : BatchScheduler) (m : Method) (statements : List Statement)
    (read : m.Reply → Except StoreError (Table α)) : StoreM (Table α) :=
  Program.pool m (s.workersFor statements.length) statements fun completions =>
    .pure (BatchOutcome.ofEnds statements.length (completions.map (·.chunkEnd read))).toExcept

/-- Send several statements for their effects alone. -/
def sendAll (s : BatchScheduler) (m : Method) (statements : List Statement) : StoreM Unit := do
  let _ ← callAll s m statements fun _ => .ok (Table.empty : Table Unit)

end StoreM

/-- Finds generic nodes by their codes. -/
structure Resolver where
  dialect : Dialect
  scheduler : BatchScheduler

namespace Resolver

/-- The table that the rows of a reply make, of nodes by id and their codes. -/
def readRows (batches : List Json) : Except StoreError CodesById :=
  (IdCode.collect batches).mapError fun e =>
    .decode ("expected (node_id, node_code) records: " ++ e.message)

/-- Send the distinct codes in batches, each in a query, and merge the nodes found. -/
def resolve (r : Resolver) (query : List String → Query) (codes : List String) :
    StoreM CodesById :=
  let batches := r.scheduler.split (TextSet.ofList codes).toList
  StoreM.callAll r.scheduler .tabular
    (batches.map fun batch => .of r.dialect (.query (query batch))) readRows

/-- The generic nodes of a code list that carry one of the codes. -/
def nodeIds (r : Resolver) (codeList : Id) (codes : List String) : StoreM CodesById :=
  r.resolve (.genericIds codeList) codes

/-- The ancestors of those nodes. -/
def ancestorIds (r : Resolver) (codeList : Id) (codes : List String) : StoreM CodesById :=
  r.resolve (.ancestryIds codeList) codes

end Resolver

end InstanceHierarchy
