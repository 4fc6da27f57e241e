import InstanceHierarchy.Record.Node

/-!
# Codes

The rows that a store answers about codes: which node carries a code, and where a code stands in
its code list.
-/

namespace InstanceHierarchy

/-- The ids of nodes with the code of each. -/
abbrev CodesById := Table String

/-- A node's id with the node's code. -/
structure IdCode where
  id : Id
  code : String
  deriving DecidableEq

namespace IdCode

def shape : Shape IdCode :=
  IdCode.mk <$> .required "node_id" .text <*> .required "node_code" .text

def ofJson : Reading IdCode := shape.reading "NodeIdCode"

def toJson (r : IdCode) : Json := .obj [("node_id", .str r.id), ("node_code", .str r.code)]

/-- Collect rows that come in batches; of two rows about one node the later wins. -/
def collect (batches : List Json) : Except DecodeError CodesById :=
  batches.foldlM (fun acc batch => do
    let rows ← Reading.list ofJson batch
    return acc.insertAll (rows.map fun r => (r.id, r.code))) .empty

end IdCode

/-- A code of a code list with its place there. -/
structure CodeEntry where
  code : String
  label : String
  order : Option Int
  deriving DecidableEq

namespace CodeEntry

def shape : Shape CodeEntry :=
  CodeEntry.mk <$> .required "code" .text <*> .required "label" .text
    <*> .defaulted "order" (.optional .int64) none

def ofJson : Reading CodeEntry := shape.reading "CodeEntry"

/-- A code without a place is written without one. -/
def toJson (c : CodeEntry) : Json :=
  .obj ([("code", .str c.code), ("label", .str c.label)] ++
    (c.order.map fun n => ("order", Json.int n)).toList)

end CodeEntry

/-- The place of one code in a code list. -/
structure CodeOrder where
  code : String
  order : Option Int
  deriving DecidableEq

namespace CodeOrder

def shape : Shape CodeOrder :=
  CodeOrder.mk <$> .required "code" .text <*> .defaulted "order" (.optional .int64) none

def ofJson : Reading CodeOrder := shape.reading "CodeOrder"

/-- A code without a place is written with null for it. -/
def toJson (c : CodeOrder) : Json := .obj [("code", .str c.code), ("order", .ofInt? c.order)]

end CodeOrder
end InstanceHierarchy
