import InstanceHierarchy.Retry.Policy
import InstanceHierarchy.Store.Batches
import InstanceHierarchy.Store.Reader

/-!
# Backends

A backend offers the steps of hierarchy building and the reads.  One kind works on sets of node ids
in batches and sends every statement once; a failed build is started anew.  The other kind works on
whole code lists, one statement for a step, and sends a mutation again when it failed in passing; it
has no steps on sets of ids.
-/

namespace InstanceHierarchy

inductive Backend where
  /-- Steps on sets of ids, with a scheduler for reading and one for writing. -/
  | gremlin (reading writing : BatchScheduler)
  /-- Steps on whole code lists, with a policy for repeating mutations. -/
  | cypher (retry : RetryPolicy)

namespace Backend

def dialect : Backend → Dialect
  | gremlin .. => .gremlin
  | cypher _ => .cypher

/-- The reads of the backend. -/
def reader (b : Backend) : Reader := ⟨b.dialect⟩

/-- Whether the steps on sets of ids are offered. -/
def supportsIds : Backend → Bool
  | gremlin .. => true
  | cypher _ => false

/-- Send a mutation. -/
def mutate : Backend → Mutation → StoreM Unit
  | gremlin .., m => StoreM.call .mutation (.of .gremlin (.mutation m))
  | cypher retry, m => StoreM.callRetrying retry .mutation (.of .cypher (.mutation m))

/-! ## Steps on whole hierarchies -/

/-- Make codes unique within a hierarchy, where the store can do so. -/
def constrain (b : Backend) (key : HierarchyKey) : StoreM Unit :=
  match b with
  | gremlin .. => pure ()
  | cypher _ => b.mutate (.constrain key)

/-- Clone every generic node of a code list. -/
def cloneList (b : Backend) (key : HierarchyKey) (codeList : Id) : StoreM Unit :=
  b.mutate (.cloneList key codeList)

/-- Repeat the parent edges of a code list between clones. -/
def relateList (b : Backend) (key : HierarchyKey) (codeList : Id) : StoreM Unit :=
  match b with
  | gremlin .. => do
      let _ ← StoreM.call .edges (.of .gremlin (.mutation (.relateList key codeList)))
  | cypher _ => b.mutate (.relateList key codeList)

/-- Remove the edges from the clones to their sources. -/
def unlinkClones (b : Backend) (key : HierarchyKey) : StoreM Unit := b.mutate (.unlinkClones key)

/-- Store with each node of a hierarchy how many children it has. -/
def countChildren (b : Backend) (key : HierarchyKey) : StoreM Unit := b.mutate (.countChildren key)

/-- Flag the nodes of a hierarchy whose codes have observations, if there are any observations. -/
def flagData (b : Backend) (key : HierarchyKey) : StoreM Unit := do
  let codes ← b.reader.dataCodes key
  unless codes.isEmpty do b.mutate (.flagData key codes)

/-- Mark the nodes that have data, and all their ancestors. -/
def markRemaining (b : Backend) (key : HierarchyKey) : StoreM Unit := b.mutate (.markRemaining key)

/-- Remove the nodes that are not marked. -/
def dropUnmarked (b : Backend) (key : HierarchyKey) : StoreM Unit := b.mutate (.dropUnmarked key)

/-- Take the marks off the nodes. -/
def clearMarks (b : Backend) (key : HierarchyKey) : StoreM Unit := b.mutate (.clearMarks key)

/-! ## Steps on sets of ids -/

/-- Send one mutation for each batch of ids. -/
def mutateIds (writing : BatchScheduler) (m : Method) (ids : TextSet)
    (mutation : List Id → Mutation) : StoreM Unit :=
  StoreM.sendAll writing m
    ((writing.split ids.toList).map fun batch => .of .gremlin (.mutation (mutation batch)))

/-- Clone the given generic nodes. -/
def cloneSources (b : Backend) (key : HierarchyKey) (codeList : Id) (ids : TextSet)
    (hasData : Bool) : StoreM Unit :=
  match b with
  | gremlin _ writing =>
      mutateIds writing .mutation ids fun batch => .cloneSources key codeList batch hasData
  | cypher _ => throw (.notImplemented "clone_nodes_from_ids")

/-- Repeat the parent edges of the given generic nodes between clones. -/
def relateSources (b : Backend) (key : HierarchyKey) (ids : TextSet) : StoreM Unit :=
  match b with
  | gremlin _ writing => mutateIds writing .edges ids (.relateSources key)
  | cypher _ => throw (.notImplemented "clone_relationships_from_ids")

/-- Copy the place in the code list from the codes of the given generic nodes to their clones. -/
def copyOrder (b : Backend) (codeList : Id) (ids : TextSet) : StoreM Unit :=
  match b with
  | gremlin _ writing => mutateIds writing .mutation ids (.copyOrder codeList)
  | cypher _ => throw (.notImplemented "clone_order_from_ids")

/-- Link generic nodes to their codes, each by a statement of its own.  The links have no order of
their own and may be sent in any; here they go by ascending id. -/
def linkCodes (b : Backend) (codeList : Id) (codes : CodesById) : StoreM Unit :=
  match b with
  | gremlin _ writing =>
      StoreM.sendAll writing .mutation
        (codes.entries.map fun e => .of .gremlin (.mutation (.linkCode codeList e.1 e.2)))
  | cypher _ => throw (.notImplemented "create_has_code_edges")

/-- Remove the edges from clones to the given sources. -/
def unlinkSources (b : Backend) (ids : TextSet) : StoreM Unit :=
  match b with
  | gremlin _ writing => mutateIds writing .mutation ids .unlinkSources
  | cypher _ => throw (.notImplemented "remove_clone_edges_from_source_ids")

/-- Store with each given node how many children it has. -/
def countChildrenOf (b : Backend) (ids : TextSet) : StoreM Unit :=
  match b with
  | gremlin _ writing => mutateIds writing .mutation ids .countChildrenOf
  | cypher _ => throw (.notImplemented "set_number_of_children_from_ids")

/-- The generic nodes of a code list that carry one of the codes. -/
def genericIds (b : Backend) (codeList : Id) (codes : List String) : StoreM CodesById :=
  match b with
  | gremlin reading _ => Resolver.nodeIds ⟨.gremlin, reading⟩ codeList codes
  | cypher _ => throw (.notImplemented "get_generic_hierarchy_node_ids")

/-- The ancestors of those nodes. -/
def ancestryIds (b : Backend) (codeList : Id) (codes : List String) : StoreM CodesById :=
  match b with
  | gremlin reading _ => Resolver.ancestorIds ⟨.gremlin, reading⟩ codeList codes
  | cypher _ => throw (.notImplemented "get_generic_hierarchy_ancestries_ids")

/-- The ids of a hierarchy's nodes. -/
def nodeIds (b : Backend) (key : HierarchyKey) : StoreM TextSet :=
  match b with
  | gremlin .. => b.reader.nodeIds key
  | cypher _ => throw (.notImplemented "get_hierarchy_node_ids")

end Backend
end InstanceHierarchy
