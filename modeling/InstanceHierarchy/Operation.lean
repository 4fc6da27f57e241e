import InstanceHierarchy.Record.Hierarchy

/-!
# The operations of hierarchy building

A mutation changes a graph, a query reads it.  Both are named independently of the language that a
store is spoken to in.  Labels say which nodes belong together: the generic nodes of a code list,
the nodes of one hierarchy, the data points of one dimension, the codes of a list, the list itself.
-/

namespace InstanceHierarchy

/-! ## Node labels -/

namespace NodeLabel

def generic (codeList : Id) : String := "_generic_hierarchy_node_" ++ codeList

def hierarchy (key : HierarchyKey) : String :=
  "_hierarchy_node_" ++ key.instanceId ++ "_" ++ key.dimension

/-- The label of the options of a dimension for which an instance has observations. -/
def data (key : HierarchyKey) : String := "_" ++ key.instanceId ++ "_" ++ key.dimension

def code (codeList : Id) : String := "_code_" ++ codeList

def codeList (codeList : Id) : String := "_code_list_" ++ codeList

end NodeLabel

inductive Mutation where
  /-- Make codes unique within a hierarchy. -/
  | constrain (key : HierarchyKey)
  /-- Clone every generic node of a code list. -/
  | cloneList (key : HierarchyKey) (codeList : Id)
  /-- Clone the given generic nodes. -/
  | cloneSources (key : HierarchyKey) (codeList : Id) (ids : List Id) (hasData : Bool)
  /-- Repeat between clones the parent edges that leave the generic nodes of a code list. -/
  | relateList (key : HierarchyKey) (codeList : Id)
  /-- Repeat between clones the parent edges that leave the given generic nodes. -/
  | relateSources (key : HierarchyKey) (ids : List Id)
  /-- Copy the place in the code list from the code of each given generic node to its clones. -/
  | copyOrder (codeList : Id) (ids : List Id)
  /-- Link a generic node to its code in the code list. -/
  | linkCode (codeList : Id) (node : Id) (code : String)
  /-- Remove the edges from the clones of a hierarchy to their sources. -/
  | unlinkClones (key : HierarchyKey)
  /-- Remove the edges from clones to the given sources. -/
  | unlinkSources (ids : List Id)
  /-- Store with each node of a hierarchy how many children it has. -/
  | countChildren (key : HierarchyKey)
  /-- Store with each given node how many children it has. -/
  | countChildrenOf (ids : List Id)
  /-- Flag the nodes of a hierarchy that carry one of the codes as having data. -/
  | flagData (key : HierarchyKey) (codes : List String)
  /-- Mark the nodes that have data, and all their ancestors. -/
  | markRemaining (key : HierarchyKey)
  /-- Remove the nodes of a hierarchy that are not marked. -/
  | dropUnmarked (key : HierarchyKey)
  /-- Take the marks off the nodes of a hierarchy. -/
  | clearMarks (key : HierarchyKey)
  deriving DecidableEq

inductive Query where
  /-- How many nodes a hierarchy has. -/
  | countNodes (key : HierarchyKey)
  /-- The codes that an instance has observations for. -/
  | dataCodes (key : HierarchyKey)
  /-- The ids of a hierarchy's nodes. -/
  | nodeIds (key : HierarchyKey)
  /-- The generic nodes of a code list that carry one of the codes. -/
  | genericIds (codeList : Id) (codes : List String)
  /-- The ancestors of those nodes. -/
  | ancestryIds (codeList : Id) (codes : List String)
  /-- The nodes of a hierarchy that have no parent. -/
  | roots (key : HierarchyKey)
  /-- The nodes of a hierarchy that carry a code. -/
  | element (key : HierarchyKey) (code : String)
  /-- The children of those nodes. -/
  | children (key : HierarchyKey) (code : String)
  /-- The ancestors of those nodes, nearest first. -/
  | ancestry (key : HierarchyKey) (code : String)
  /-- How many codes a code list has. -/
  | countCodes (codeList : Id)
  /-- The codes of a code list in their order. -/
  | codes (codeList : Id)
  /-- One code of a code list. -/
  | code (codeList : Id) (code : String)
  /-- The places of some codes in their code list. -/
  | codesOrder (codeList : Id) (codes : List String)
  deriving DecidableEq

/-- What a statement does: change a graph or read it. -/
inductive Operation where
  | mutation (m : Mutation)
  | query (q : Query)
  deriving DecidableEq

namespace Mutation

/-- The short name that reports use. -/
def name : Mutation → String
  | constrain _ => "create_hierarchy_constraint"
  | cloneList .. => "clone_nodes"
  | cloneSources .. => "clone_nodes_from_ids"
  | relateList .. => "clone_relationships"
  | relateSources .. => "clone_relationships_from_ids"
  | copyOrder .. => "clone_order_from_ids"
  | linkCode .. => "create_has_code_edge"
  | unlinkClones _ => "remove_clone_edges"
  | unlinkSources _ => "remove_clone_edges_from_source_ids"
  | countChildren _ => "set_number_of_children"
  | countChildrenOf _ => "set_number_of_children_from_ids"
  | flagData .. => "set_has_data"
  | markRemaining _ => "mark_nodes_to_remain"
  | dropUnmarked _ => "remove_nodes_not_marked_to_remain"
  | clearMarks _ => "remove_remain_marker"

end Mutation

namespace Query

/-- The short name that reports use. -/
def name : Query → String
  | countNodes _ => "count_hierarchy_nodes"
  | dataCodes _ => "get_codes_with_data"
  | nodeIds _ => "get_hierarchy_node_ids"
  | genericIds .. => "get_generic_hierarchy_node_ids"
  | ancestryIds .. => "get_generic_hierarchy_ancestry_ids"
  | roots _ => "get_hierarchy_root"
  | element .. => "get_hierarchy_element"
  | children .. => "get_children"
  | ancestry .. => "get_ancestry"
  | countCodes _ => "count_codes"
  | codes _ => "get_codes"
  | code .. => "get_code"
  | codesOrder .. => "get_codes_order"

end Query

namespace Operation

def name : Operation → String
  | mutation m => m.name
  | query q => q.name

/-- The operation leaves the graph as it is. -/
def isRead : Operation → Bool
  | mutation _ => false
  | query _ => true

end Operation
end InstanceHierarchy
