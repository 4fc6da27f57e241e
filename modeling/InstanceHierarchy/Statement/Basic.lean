import InstanceHierarchy.Statement.Cypher
import InstanceHierarchy.Statement.Gremlin

/-!
# Statements

A statement is an operation together with its text in one query language.  A store that speaks the
language is sent the text; the graph in memory carries out the operation.
-/

namespace InstanceHierarchy

/-- The query languages that stores speak. -/
inductive Dialect where
  | gremlin
  | cypher
  deriving DecidableEq

namespace Dialect

def name : Dialect → String
  | gremlin => "gremlin"
  | cypher => "cypher"

def render : Dialect → Operation → String
  | gremlin => Statement.Gremlin.render
  | cypher => Statement.Cypher.render

end Dialect

structure Statement where
  operation : Operation
  text : String
  deriving DecidableEq

namespace Statement

/-- The statement of an operation in a query language. -/
def of (dialect : Dialect) (op : Operation) : Statement := ⟨op, dialect.render op⟩

end Statement
end InstanceHierarchy
