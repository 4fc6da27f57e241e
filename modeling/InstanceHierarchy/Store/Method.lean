import InstanceHierarchy.Graph.Answer
import InstanceHierarchy.Statement.Basic
import InstanceHierarchy.StoreError

/-!
# Calling a store

A store is called by a method, which says what kind of reply is wanted, with a statement.  The
graph in memory answers a call by carrying out the statement's operation and then fitting the
outcome to the method; when it does not fit, the effect on the graph has taken place.
-/

namespace InstanceHierarchy

/-- The kinds of reply that can be asked for. -/
inductive Method where
  | mutation
  | count
  | strings
  | nodes
  | edges
  | tabular
  deriving DecidableEq

namespace Method

/-- The replies to a method. -/
abbrev Reply : Method → Type
  | mutation => Unit
  | count => Int
  | strings => List String
  | nodes => List Node
  | edges => List Edge
  | tabular => List Json

/-- The short name that reports use. -/
def name : Method → String
  | mutation => "mutation"
  | count => "count"
  | strings => "strings"
  | nodes => "nodes"
  | edges => "edges"
  | tabular => "tabular"

/-- What the method asks for, for messages. -/
def wanted : Method → String
  | mutation => "a mutation"
  | count => "a count"
  | strings => "a string list"
  | nodes => "nodes"
  | edges => "edges"
  | tabular => "tabular rows"

/-- The reply that an outcome makes, if it fits.  Created edges may be left unread, and a mutation
that reports no edges counts as one that created none. -/
def fit? : (m : Method) → Outcome → Option m.Reply
  | mutation, .nothing => some ()
  | mutation, .edges _ => some ()
  | count, .count n => some n
  | strings, .texts values => some values
  | nodes, .nodes records => some records
  | edges, .edges records => some records
  | edges, .nothing => some []
  | tabular, .rows values => some values
  | _, _ => none

/-- The reading of a reply that is written as JSON. -/
def ofJson : (m : Method) → Reading m.Reply
  | mutation => fun v =>
      match v with
      | .null => .ok ()
      | v => .error (.wrongType v "unit")
  | count => Reading.int64
  | strings => Reading.list Reading.text
  | nodes => Reading.list Node.ofJson
  | edges => Reading.list Edge.ofJson
  | tabular => Reading.list .ok

end Method

/-- The result of a store call. -/
abbrev Result (m : Method) := Except StoreError m.Reply

/-- The failure of a call whose outcome does not fit. -/
def Outcome.misfit (o : Outcome) (op : Operation) (m : Method) : StoreError :=
  .backend (op.name ++ " returns " ++ o.kind ++ ", not " ++ m.wanted)

/-- Call the graph in memory. -/
def Graph.call (g : Graph) (m : Method) (s : Statement) : Result m × Graph :=
  let (outcome, g) := g.perform s.operation
  match m.fit? outcome with
  | some reply => (.ok reply, g)
  | none => (.error (outcome.misfit s.operation m), g)

end InstanceHierarchy
