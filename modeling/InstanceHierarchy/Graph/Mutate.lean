import InstanceHierarchy.Graph.Ancestry
import InstanceHierarchy.Operation

/-!
# Carrying out mutations

Every mutation is total on every graph: ids that name no node are passed over.  Each adds only what
is missing, so carrying it out again after an interruption finishes the work instead of doubling
it.
-/

namespace InstanceHierarchy
namespace Graph

/-- The properties of a new clone of a source. -/
def cloneProperties (source : Node) (code : String) (codeList : Id) (hasData : Bool) : Properties :=
  let properties := Table.empty
    |>.insert Property.code (.str code)
    |>.insert Property.hasData (.bool hasData)
    |>.insert Property.codeList (.str codeList)
  match source.properties.get? Property.label with
  | some label => properties.insert Property.label label
  | none => properties

/-- Clone one source: the first node of the target label with the source's code serves as the
clone, or a new one is made; then the clone is linked to the source.  A source without a code counts
as one with the empty code. -/
def cloneNode (g : Graph) (source : Id) (target : String) (codeList : Id) (hasData : Bool) :
    Graph :=
  match g.node? source with
  | none => g
  | some node =>
      let code := (node.text? Property.code).getD ""
      let (clone, g) :=
        -- the clone may stem from an interrupted run, or from another source with this code
        match g.idsWithCode target code with
        | clone :: _ => (clone, g)
        | [] => g.addVertex ⟨target, cloneProperties node code codeList hasData⟩
      (g.mergeEdge EdgeLabel.cloneOf clone source).2

/-- Clone the sources in turn. -/
def cloneNodes (g : Graph) (sources : List Id) (target : String) (codeList : Id) (hasData : Bool) :
    Graph :=
  sources.foldl (fun g source => g.cloneNode source target codeList hasData) g

/-- The pairs, child first, that the parent edges of one source ask for between clones. -/
def relatePairs (g : Graph) (target : String) (source : Id) : List (Id × Id) :=
  (g.targets source EdgeLabel.hasParent).flatMap fun sourceParent =>
    (g.clonesOf sourceParent target).flatMap fun parent =>
      (g.clonesOf source target).map fun child => (child, parent)

/-- Add the parent edges that are missing among some pairs; the new edges are appended to a list. -/
def linkParents (state : List Edge × Graph) (pairs : List (Id × Id)) : List Edge × Graph :=
  pairs.foldl (fun (created, g) (child, parent) =>
    let (edge, g) := g.mergeEdge EdgeLabel.hasParent child parent
    (created ++ edge.toList, g)) state

/-- Repeat the parent edges of the sources between their clones; the new edges. -/
def relate (g : Graph) (sources : List Id) (target : String) : List Edge × Graph :=
  sources.foldl (fun state source => linkParents state (state.2.relatePairs target source)) ([], g)

/-- Store with each node how many parent edges lead to it. -/
def countChildren (g : Graph) (ids : List Id) : Graph :=
  ids.foldl (fun g id =>
    g.setProperty id Property.numberOfChildren
      (.int (g.sources id EdgeLabel.hasParent).length)) g

/-- The place of a source's code in a code list: the first one on an edge from a linked code to the
list. -/
def orderOf? (g : Graph) (codeList : Id) (source : Id) : Option Json :=
  (g.targets source EdgeLabel.hasCode).findSome? fun code =>
    (g.edges.filter fun e =>
      e.label = EdgeLabel.usedBy ∧ e.source = code ∧
        g.isLabelled e.target (NodeLabel.codeList codeList)).findSome? fun e =>
      e.properties.get? Property.order

/-- Give the clones of one source the place of the source's code. -/
def copyOrder (g : Graph) (codeList : Id) (source : Id) : Graph :=
  match g.orderOf? codeList source with
  | none => g
  | some order =>
      (g.sources source EdgeLabel.cloneOf).foldl
        (fun g clone => g.setProperty clone Property.order order) g

/-- Link a node to the first code of a code list with a value, if both are there. -/
def linkCode (g : Graph) (codeList : Id) (node : Id) (code : String) : Graph :=
  let found := (g.nodesWithLabel (NodeLabel.code codeList)).find? fun n =>
    n.text? Property.value = some code
  match found with
  | some codeNode =>
      if g.nodes.contains node then (g.mergeEdge EdgeLabel.hasCode node codeNode.id).2 else g
  | none => g

/-- The nodes with a label whose flag is set, by id. -/
def idsWithFlag (g : Graph) (label : String) (flag : String) : List Id :=
  ((g.nodesWithLabel label).filter fun n => n.bool? flag = some true).map (·.id)

/-- The nodes with a label whose code is among some codes, by id. -/
def idsWithCodeIn (g : Graph) (label : String) (codes : List String) : List Id :=
  ((g.nodesWithLabel label).filter fun n =>
    match n.text? Property.code with
    | some code => code ∈ codes
    | none => false).map (·.id)

/-- Set a property of several nodes. -/
def setProperties (g : Graph) (ids : List Id) (key : String) (value : Json) : Graph :=
  ids.foldl (fun g id => g.setProperty id key value) g

/-- Carry out a mutation.  The edges it created are returned where a caller may ask for them. -/
def mutate (g : Graph) : Mutation → Option (List Edge) × Graph
  | .constrain _ => (none, g)
  | .cloneList key codeList =>
      (none, g.cloneNodes (g.idsWithLabel (NodeLabel.generic codeList)) (NodeLabel.hierarchy key)
        codeList false)
  | .cloneSources key codeList ids hasData =>
      (none, g.cloneNodes ids (NodeLabel.hierarchy key) codeList hasData)
  | .relateList key codeList =>
      let (created, g) :=
        g.relate (g.idsWithLabel (NodeLabel.generic codeList)) (NodeLabel.hierarchy key)
      (some created, g)
  | .relateSources key ids =>
      let (created, g) := g.relate ids (NodeLabel.hierarchy key)
      (some created, g)
  | .copyOrder codeList ids => (none, ids.foldl (fun g id => g.copyOrder codeList id) g)
  | .linkCode codeList node code => (none, g.linkCode codeList node code)
  | .unlinkClones key =>
      (none, g.dropEdges EdgeLabel.cloneOf fun e => g.isLabelled e.source (NodeLabel.hierarchy key))
  | .unlinkSources ids => (none, g.dropEdges EdgeLabel.cloneOf fun e => e.target ∈ ids)
  | .countChildren key => (none, g.countChildren (g.idsWithLabel (NodeLabel.hierarchy key)))
  | .countChildrenOf ids => (none, g.countChildren ids)
  | .flagData key codes =>
      (none, g.setProperties (g.idsWithCodeIn (NodeLabel.hierarchy key) codes) Property.hasData
        (.bool true))
  | .markRemaining key =>
      let withData := g.idsWithFlag (NodeLabel.hierarchy key) Property.hasData
      (none, g.setProperties (withData ++ g.ancestors withData) Property.remain (.bool true))
  | .dropUnmarked key =>
      let unmarked := (g.nodesWithLabel (NodeLabel.hierarchy key)).filter fun n =>
        n.bool? Property.remain ≠ some true
      (none, (unmarked.map (·.id)).foldl removeNode g)
  | .clearMarks key =>
      (none, (g.idsWithLabel (NodeLabel.hierarchy key)).foldl
        (fun g id => g.dropProperty id Property.remain) g)

end Graph
end InstanceHierarchy
