import InstanceHierarchy.Json.Shape

/-!
# Nodes and edges

A node has an id, a label and a table of properties; an edge has an id, a label and the ids of the
nodes it joins.  A property read as the wrong type reads as absent.
-/

namespace InstanceHierarchy

/-- The name of a node, an edge, a code list or an instance. -/
abbrev Id := String

abbrev Properties := Table Json

/-! ## The property keys of generic nodes, hierarchy nodes and codes -/

namespace Property

def code := "code"
def label := "label"
def codeList := "code_list"
def hasData := "hasData"
def numberOfChildren := "numberOfChildren"
def remain := "remain"
def order := "order"
def value := "value"

end Property

/-! ## The labels of edges -/

namespace EdgeLabel

def hasParent := "hasParent"
def cloneOf := "clone_of"
def hasCode := "hasCode"
def usedBy := "usedBy"

end EdgeLabel

structure Node where
  id : Id
  label : String
  properties : Properties

namespace Node

/-- A node without properties. -/
def bare (id : Id) (label : String) : Node := ⟨id, label, .empty⟩

def withProperty (n : Node) (key : String) (value : Json) : Node :=
  { n with properties := n.properties.insert key value }

def text? (n : Node) (key : String) : Option String := (n.properties.get? key).bind Json.text?

def int64? (n : Node) (key : String) : Option Int := (n.properties.get? key).bind Json.int64?

def bool? (n : Node) (key : String) : Option Bool := (n.properties.get? key).bind Json.bool?

instance : BEq Node where
  beq a b :=
    a.id == b.id && a.label == b.label &&
      Json.same (.ofTable a.properties) (.ofTable b.properties)

def shape : Shape Node :=
  Node.mk <$> .required "id" .text <*> .required "label" .text
    <*> .defaulted "properties" .table .empty

def ofJson : Reading Node := shape.reading "NodeRecord"

def toJson (n : Node) : Json :=
  .obj [("id", .str n.id), ("label", .str n.label), ("properties", .ofTable n.properties)]

end Node

structure Edge where
  id : Id
  label : String
  source : Id
  target : Id
  deriving DecidableEq

namespace Edge

def shape : Shape Edge :=
  Edge.mk <$> .required "id" .text <*> .required "label" .text <*> .required "out_v" .text
    <*> .required "in_v" .text

def ofJson : Reading Edge := shape.reading "EdgeRecord"

def toJson (e : Edge) : Json :=
  .obj [("id", .str e.id), ("label", .str e.label), ("out_v", .str e.source),
    ("in_v", .str e.target)]

end Edge
end InstanceHierarchy
