import InstanceHierarchy.Record.Node

/-!
# Hierarchies as they are named and shown

A hierarchy belongs to one dimension of one instance.  Its nodes are shown as elements: the code,
the label, the number of children, whether there is data, and the place among siblings.
-/

namespace InstanceHierarchy

/-- What names an instance hierarchy: the instance and one of its dimensions. -/
structure HierarchyKey where
  instanceId : Id
  dimension : String
  deriving DecidableEq

namespace HierarchyKey

def shape : Shape HierarchyKey :=
  HierarchyKey.mk <$> .required "instance_id" .text <*> .required "dimension_name" .text

def ofJson : Reading HierarchyKey := shape.reading "HierarchyKey"

def toJson (k : HierarchyKey) : Json :=
  .obj [("instance_id", .str k.instanceId), ("dimension_name", .str k.dimension)]

end HierarchyKey

/-- A node of the hierarchy that a whole code list shares. -/
structure GenericNode where
  id : Id
  code : String
  label : String
  codeList : Id
  deriving DecidableEq

namespace GenericNode

def shape : Shape GenericNode :=
  GenericNode.mk <$> .required "id" .text <*> .required "code" .text <*> .required "label" .text
    <*> .required "code_list_id" .text

def ofJson : Reading GenericNode := shape.reading "GenericNode"

def toJson (n : GenericNode) : Json :=
  .obj [("id", .str n.id), ("code", .str n.code), ("label", .str n.label),
    ("code_list_id", .str n.codeList)]

end GenericNode

/-- A node of an instance hierarchy, cloned from a generic node. -/
structure CloneNode where
  id : Id
  code : String
  label : String
  codeList : Id
  hasData : Bool
  numberOfChildren : Int
  order : Option Int
  deriving DecidableEq

namespace CloneNode

def shape : Shape CloneNode :=
  CloneNode.mk <$> .required "id" .text <*> .required "code" .text <*> .required "label" .text
    <*> .required "code_list_id" .text <*> .required "has_data" .bool
    <*> .required "number_of_children" .int64 <*> .optional "order" .int64

def ofJson : Reading CloneNode := shape.reading "CloneNode"

/-- A node without a place is written with null for it. -/
def toJson (n : CloneNode) : Json :=
  .obj [("id", .str n.id), ("code", .str n.code), ("label", .str n.label),
    ("code_list_id", .str n.codeList), ("has_data", .bool n.hasData),
    ("number_of_children", .int n.numberOfChildren), ("order", .ofInt? n.order)]

end CloneNode

/-- A hierarchy node as a reader sees it; its id is the code. -/
structure Element where
  id : String
  label : String
  numberOfChildren : Int
  hasData : Bool
  order : Option Int
  deriving DecidableEq

namespace Element

def shape : Shape Element :=
  Element.mk <$> .required "id" .text <*> .required "label" .text
    <*> .required "no_of_children" .int64 <*> .required "has_data" .bool
    <*> .optional "order" .int64

def ofJson : Reading Element := shape.reading "HierarchyElement"

/-- An element without a place is written without one. -/
def toJson (e : Element) : Json :=
  .obj ([("id", .str e.id), ("label", .str e.label), ("no_of_children", .int e.numberOfChildren),
    ("has_data", .bool e.hasData)] ++ (e.order.map fun n => ("order", Json.int n)).toList)

end Element

/-- An element with its children and, unless it is the root, its ancestors, nearest first. -/
structure ElementView where
  id : String
  label : String
  numberOfChildren : Int
  hasData : Bool
  children : List Element
  breadcrumbs : List Element
  deriving DecidableEq

namespace ElementView

/-- The view of an element before its surroundings are known. -/
def ofElement (e : Element) : ElementView :=
  ⟨e.id, e.label, e.numberOfChildren, e.hasData, [], []⟩

def shape : Shape ElementView :=
  ElementView.mk <$> .required "id" .text <*> .required "label" .text
    <*> .required "no_of_children" .int64 <*> .required "has_data" .bool
    <*> .required "children" (.list Element.ofJson)
    <*> .defaulted "breadcrumbs" (.list Element.ofJson) []

def ofJson : Reading ElementView := shape.reading "HierarchyResponse"

/-- A view without breadcrumbs is written without them. -/
def toJson (v : ElementView) : Json :=
  .obj ([("id", .str v.id), ("label", .str v.label), ("no_of_children", .int v.numberOfChildren),
    ("has_data", .bool v.hasData), ("children", .arr (v.children.map Element.toJson))] ++
    if v.breadcrumbs.isEmpty then []
    else [("breadcrumbs", .arr (v.breadcrumbs.map Element.toJson))])

end ElementView
end InstanceHierarchy
