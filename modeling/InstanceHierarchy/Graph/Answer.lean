import InstanceHierarchy.Graph.Mutate

/-!
# Answering queries

A query is answered from the graph alone.  Answers have a canonical order: by id, or by the place
in the code list with unplaced codes last, or by distance.
-/

namespace InstanceHierarchy

/-- What carrying out an operation yields. -/
inductive Outcome where
  | nothing
  | count (n : Int)
  | texts (values : List String)
  | nodes (records : List Node)
  | edges (records : List Edge)
  | rows (values : List Json)

namespace Outcome

/-- The kind of result, for messages. -/
def kind : Outcome → String
  | nothing => "nothing"
  | count _ => "a count"
  | texts _ => "a string list"
  | nodes _ => "nodes"
  | edges _ => "edges"
  | rows _ => "tabular rows"

end Outcome

/-- Keep the first of neighbouring members that agree in a key. -/
def dropRepeats (key : α → Id) : List α → List α
  | [] => []
  | x :: rest =>
      match dropRepeats key rest with
      | [] => [x]
      | y :: ys => if key x = key y then x :: ys else x :: y :: ys

/-- Sorting keys with a place come before those without one; equal places are told apart by a
text. -/
def placeLe (a b : Option Int × String) : Bool :=
  match a.1, b.1 with
  | some m, some n => m < n || (m = n && a.2 ≤ b.2)
  | some _, none => true
  | none, some _ => false
  | none, none => a.2 ≤ b.2

namespace Graph

/-- The codes that an edge links to a code list, with the place the edge gives them, one after
another by place and code.  A node that several edges link is listed once for edges that become
neighbours. -/
def listMembers (g : Graph) (codeList : Id) : List (Node × Option Int) :=
  let linked := (g.edgesWithLabel EdgeLabel.usedBy).filterMap fun e =>
    if g.isLabelled e.target (NodeLabel.codeList codeList) then
      match g.node? e.source with
      | some n =>
          if n.label = NodeLabel.code codeList then
            some (n, (e.properties.get? Property.order).bind Json.int64?)
          else none
      | none => none
    else none
  let sortKey (m : Node × Option Int) : Option Int × String :=
    (m.2, (m.1.text? Property.value).getD "")
  dropRepeats (·.1.id) (linked.mergeSort fun a b => placeLe (sortKey a) (sortKey b))

/-- The row about one member of a code list. -/
def memberEntry (m : Node × Option Int) : CodeEntry :=
  ⟨(m.1.text? Property.value).getD "", (m.1.text? Property.label).getD "", m.2⟩

/-- One batch of rows about the nodes that the ids name. -/
def idCodeRows (g : Graph) (ids : List Id) : List Json :=
  [.arr ((g.records ids).map fun n =>
    (IdCode.mk n.id ((n.text? Property.code).getD "")).toJson)]

/-- The children, within one label, of the nodes that carry a code. -/
def childrenOf (g : Graph) (label code : String) : List Node :=
  let ids := (g.idsWithCode label code).flatMap fun parent => g.sources parent EdgeLabel.hasParent
  let children := (g.records (TextSet.ofList ids).toList).filter fun n => n.label = label
  let sortKey (n : Node) : Option Int × String :=
    (n.int64? Property.order, (n.text? Property.label).getD "")
  children.mergeSort fun a b => placeLe (sortKey a) (sortKey b)

def answer (g : Graph) : Query → Outcome
  | .countNodes key => .count (g.idsWithLabel (NodeLabel.hierarchy key)).length
  | .dataCodes key =>
      .texts (TextSet.ofList ((g.nodesWithLabel (NodeLabel.data key)).filterMap fun n =>
        n.text? Property.value)).toList
  | .nodeIds key => .texts (g.idsWithLabel (NodeLabel.hierarchy key))
  | .genericIds codeList codes =>
      .rows (g.idCodeRows (g.idsWithCodeIn (NodeLabel.generic codeList) codes))
  | .ancestryIds codeList codes =>
      .rows (g.idCodeRows (g.ancestors (g.idsWithCodeIn (NodeLabel.generic codeList) codes)))
  | .roots key =>
      .nodes ((g.nodesWithLabel (NodeLabel.hierarchy key)).filter fun n =>
        (g.targets n.id EdgeLabel.hasParent).isEmpty)
  | .element key code => .nodes (g.records (g.idsWithCode (NodeLabel.hierarchy key) code))
  | .children key code => .nodes (g.childrenOf (NodeLabel.hierarchy key) code)
  | .ancestry key code =>
      .nodes (g.records (g.ancestors (g.idsWithCode (NodeLabel.hierarchy key) code)))
  | .countCodes codeList => .count (g.listMembers codeList).length
  | .codes codeList => .rows ((g.listMembers codeList).map fun m => (memberEntry m).toJson)
  | .code codeList code =>
      .rows (((g.listMembers codeList).filter fun m =>
        m.1.text? Property.value = some code).map fun m => (memberEntry m).toJson)
  | .codesOrder codeList codes =>
      .rows ((g.listMembers codeList).filterMap fun m =>
        match m.1.text? Property.value with
        | some code => if code ∈ codes then some (CodeOrder.mk code m.2).toJson else none
        | none => none)

/-- Carry out an operation. -/
def perform (g : Graph) : Operation → Outcome × Graph
  | .query q => (g.answer q, g)
  | .mutation m =>
      match g.mutate m with
      | (some created, g) => (.edges created, g)
      | (none, g) => (.nothing, g)

end Graph
end InstanceHierarchy
