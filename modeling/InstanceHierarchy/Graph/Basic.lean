import InstanceHierarchy.Record.Code
import InstanceHierarchy.Record.Hierarchy
import InstanceHierarchy.Text.Basic

/-!
# Labelled graphs with properties

A graph holds its nodes by id and its edges in the order they came in.  It also holds the supply
that the ids of new nodes and edges are drawn from.  A node is stored under its own id by
construction: the id is the key, and only the label and the properties are the entry.
-/

namespace InstanceHierarchy

/-- An endless list of ids, of which the first `drawn` are spent. -/
structure IdSupply where
  ident : Nat → Id
  drawn : Nat

namespace IdSupply

/-- The next id, and the supply without it. -/
def draw (s : IdSupply) : Id × IdSupply := (s.ident s.drawn, { s with drawn := s.drawn + 1 })

/-- Lower-case hexadecimal digits, at least `width` of them. -/
def hex (width n : Nat) : String :=
  let digits := Nat.toDigits 16 n
  String.ofList (List.replicate (width - digits.length) '0' ++ digits)

/-- The groups of digits that the ids of a series begin with. -/
def seriesMark (series : Nat) : String := hex 8 series ++ "-0000-4000-8000-"

/-- The ids of a series, which count upwards in their last group of digits. -/
def counted (series : Nat) : IdSupply := ⟨fun n => seriesMark series ++ hex 12 n, 0⟩

/-- The series that is counted first. -/
def firstSeries : Nat := 0x80000000

/-- The first series, from a given one on, whose mark is not in a text.  No text has as many marks
in it as characters, so its length bounds the search. -/
def clearSeries (text : List Char) : (bound series : Nat) → Nat
  | 0, series => series
  | bound + 1, series =>
      if Text.occursIn (seriesMark series).toList text then clearSeries text bound (series + 1)
      else series

/-- The ids drawn so far. -/
def spent (s : IdSupply) : List Id := (List.range s.drawn).map s.ident

end IdSupply

/-- What is stored under a node's id. -/
structure Vertex where
  label : String
  properties : Properties

/-- An edge with its properties. -/
structure StoredEdge extends Edge where
  properties : Properties

/-- The vertex of a node. -/
def Node.vertex (n : Node) : Vertex := ⟨n.label, n.properties⟩

/-- The node with an id and a vertex. -/
def Vertex.node (v : Vertex) (id : Id) : Node := ⟨id, v.label, v.properties⟩

structure Graph where
  nodes : Table Vertex
  edges : List StoredEdge
  supply : IdSupply

namespace Graph

/-- The graph without nodes and edges. -/
def empty (supply : IdSupply) : Graph := ⟨.empty, [], supply⟩

def node? (g : Graph) (id : Id) : Option Node := (g.nodes.get? id).map (·.node id)

/-- All nodes, by ascending id. -/
def nodeList (g : Graph) : List Node := g.nodes.entries.map fun e => e.2.node e.1

/-- The nodes with a label, by ascending id. -/
def nodesWithLabel (g : Graph) (label : String) : List Node :=
  g.nodeList.filter fun n => n.label = label

/-- The ids of the nodes with a label, ascending. -/
def idsWithLabel (g : Graph) (label : String) : List Id := (g.nodesWithLabel label).map (·.id)

/-- The ids of the nodes with a label that carry a code, ascending. -/
def idsWithCode (g : Graph) (label code : String) : List Id :=
  ((g.nodesWithLabel label).filter fun n => n.text? Property.code = some code).map (·.id)

/-- The nodes that the ids name, in the order of the ids. -/
def records (g : Graph) (ids : List Id) : List Node := ids.filterMap g.node?

/-- Whether an id names a node with the label. -/
def isLabelled (g : Graph) (id : Id) (label : String) : Bool :=
  match g.nodes.get? id with
  | some v => v.label = label
  | none => false

/-- The edges with a label, oldest first. -/
def edgesWithLabel (g : Graph) (label : String) : List StoredEdge :=
  g.edges.filter fun e => e.label = label

/-- Where the edges with a label lead from a node, oldest edge first. -/
def targets (g : Graph) (id : Id) (label : String) : List Id :=
  (g.edges.filter fun e => e.label = label ∧ e.source = id).map (·.target)

/-- Where the edges with a label come from into a node, oldest edge first. -/
def sources (g : Graph) (id : Id) (label : String) : List Id :=
  (g.edges.filter fun e => e.label = label ∧ e.target = id).map (·.source)

def hasEdge (g : Graph) (label : String) (source target : Id) : Bool :=
  g.edges.any fun e => e.label = label ∧ e.source = source ∧ e.target = target

/-- Store a node, in place of the one that had its id. -/
def addNode (g : Graph) (n : Node) : Graph := { g with nodes := g.nodes.insert n.id n.vertex }

/-- Store a new node under an id of the supply. -/
def addVertex (g : Graph) (v : Vertex) : Id × Graph :=
  let (id, supply) := g.supply.draw
  (id, { g with nodes := g.nodes.insert id v, supply })

/-- Add an edge under an id of the supply. -/
def addEdge (g : Graph) (label : String) (source target : Id) (properties : Properties) :
    Edge × Graph :=
  let (id, supply) := g.supply.draw
  let edge : Edge := ⟨id, label, source, target⟩
  (edge, { g with edges := g.edges ++ [⟨edge, properties⟩], supply })

/-- Add an edge unless there is one with the same label and ends; the edge, if it is new. -/
def mergeEdge (g : Graph) (label : String) (source target : Id) : Option Edge × Graph :=
  if g.hasEdge label source target then (none, g)
  else
    let (edge, g) := g.addEdge label source target .empty
    (some edge, g)

/-- Remove a node and every edge at it. -/
def removeNode (g : Graph) (id : Id) : Graph :=
  { g with
    nodes := g.nodes.erase id
    edges := g.edges.filter fun e => e.source ≠ id ∧ e.target ≠ id }

/-- Set a property of a node; without the node nothing changes. -/
def setProperty (g : Graph) (id : Id) (key : String) (value : Json) : Graph :=
  { g with
    nodes := g.nodes.modify id fun v => { v with properties := v.properties.insert key value } }

/-- Drop a property of a node. -/
def dropProperty (g : Graph) (id : Id) (key : String) : Graph :=
  { g with nodes := g.nodes.modify id fun v => { v with properties := v.properties.erase key } }

/-- Drop the edges with a label that a test accepts. -/
def dropEdges (g : Graph) (label : String) (test : StoredEdge → Bool) : Graph :=
  { g with edges := g.edges.filter fun e => !(e.label = label ∧ test e) }

/-- The nodes with the target label that are linked to a source as its clones. -/
def clonesOf (g : Graph) (source : Id) (target : String) : List Id :=
  (g.sources source EdgeLabel.cloneOf).filter fun id => g.isLabelled id target

end Graph
end InstanceHierarchy
