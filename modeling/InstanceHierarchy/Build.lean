import InstanceHierarchy.Store.Backend

/-!
# Building an instance hierarchy

A build turns the generic hierarchy of a code list into the hierarchy of one dimension of an
instance.  A build from ids finds the generic nodes whose codes have observations, and their
ancestors, and clones only those.  A bulk build clones the whole code list and removes the clones
that lead to no observations.  The steps come in a fixed order and the first failure ends the
build.
-/

namespace InstanceHierarchy

/-- What a finished build reports. -/
structure BuildReport where
  key : HierarchyKey
  codeList : Id
  idDriven : Bool
  /-- The number of codes with observations. -/
  codesWithData : Nat
  /-- The number of generic nodes that were cloned; none for a bulk build. -/
  clonedNodes : Option Nat
  /-- The number of nodes in the hierarchy. -/
  nodeCount : Int
  deriving DecidableEq

namespace BuildReport

def toJson (r : BuildReport) : Json :=
  .obj [("key", r.key.toJson), ("code_list_id", .str r.codeList), ("id_driven", .bool r.idDriven),
    ("codes_with_data", .int r.codesWithData),
    ("cloned_nodes", .ofInt? (r.clonedNodes.map Int.ofNat)), ("node_count", .int r.nodeCount)]

end BuildReport

namespace Backend

/-- Clone a whole code list and remove the clones that lead to no observations.  Children are
counted last, so only those that remain count. -/
def buildBulk (b : Backend) (key : HierarchyKey) (codeList : Id) : StoreM BuildReport := do
  b.constrain key
  b.cloneList key codeList
  b.relateList key codeList
  b.unlinkClones key
  b.flagData key
  b.markRemaining key
  b.dropUnmarked key
  b.clearMarks key
  b.countChildren key
  let codes ← b.reader.dataCodes key
  let nodeCount ← b.reader.countNodes key
  return {
    key, codeList, nodeCount
    idDriven := false
    codesWithData := codes.length
    clonedNodes := none }

/-- Clone the generic nodes whose codes have observations, and their ancestors.  A node that is
both is cloned as one with observations. -/
def buildFromIds (b : Backend) (cloneOrder : Bool) (key : HierarchyKey) (codeList : Id) :
    StoreM BuildReport := do
  let codes ← b.reader.dataCodes key
  let leaves ← b.genericIds codeList codes
  let reached ← b.ancestryIds codeList codes
  let ancestors := reached.filter fun id _ => !leaves.contains id
  b.cloneSources key codeList leaves.keySet true
  b.cloneSources key codeList ancestors.keySet false
  let generic := leaves.union ancestors
  b.relateSources key generic.keySet
  if cloneOrder then
    b.linkCodes codeList generic
    b.copyOrder codeList generic.keySet
  b.unlinkSources generic.keySet
  let clones ← b.nodeIds key
  b.countChildrenOf clones
  let nodeCount ← b.reader.countNodes key
  return {
    key, codeList, nodeCount
    idDriven := true
    codesWithData := codes.length
    clonedNodes := some generic.size }

/-- Build from ids where the backend can, in bulk otherwise. -/
def build (b : Backend) (cloneOrder : Bool) (key : HierarchyKey) (codeList : Id) :
    StoreM BuildReport :=
  if b.supportsIds then b.buildFromIds cloneOrder key codeList else b.buildBulk key codeList

end Backend
end InstanceHierarchy
