import InstanceHierarchy.Statement.Fragment

/-!
# Statements in Gremlin

Graph traversals.  Labels stand between single quotes.  There is no statement for constraints.
-/

namespace InstanceHierarchy
namespace Statement.Gremlin

open Fragment

/-- The traversal to all nodes with a label. -/
def having (s : String) : List Fragment := [words "g.V().hasLabel(", label s, words ")"]

/-- The traversal to the nodes with the given ids. -/
def among (ids : List Id) : List Fragment := [words "g.V(", values ids, words ")"]

/-- From the source held as `old` to its clone: the node of the target label with the same code, or
a new one, which is then linked to the source unless it is already. -/
def mergeClone (target : String) (codeList : Id) (hasData : Bool) : List Fragment :=
  [words ".coalesce(__.V().hasLabel(", label target, words ").where(eq('old')).by('code'),__.addV(",
    label target,
    words (").property(single,'code',select('old').values('code'))" ++
      ".property(single,'label',select('old').values('label'))" ++
      ".property(single,'hasData'," ++ toString hasData ++ ").property(single,'code_list',"),
    value codeList,
    words (")).as('new').coalesce(__.out('clone_of').where(eq('old'))," ++
      "__.addE('clone_of').to('old')).select('new')")]

/-- From the generic nodes held as `oc`: a parent edge between clones wherever there is none yet. -/
def relate (target : String) : List Fragment :=
  [words ".as('oc').out('hasParent').in('clone_of').hasLabel(", label target,
    words ").as('p').select('oc').in('clone_of').hasLabel(", label target,
    words ").not(out('hasParent').where(eq('p'))).addE('hasParent').to('p')"]

/-- The rows about the codes held as `c`. -/
def codeRows (codeList : Id) : List Fragment :=
  [words ".outE('usedBy').where(inV().hasLabel(", label (NodeLabel.codeList codeList),
    words (")).project('code','label','order')" ++
      ".by(select('c').values('value')).by(select('c').values('label')).by(values('order'))")]

def idCodeRows : List Fragment :=
  [words ".project('node_id','node_code').by(id()).by(values('code'))"]

def withCodes (codes : List String) : List Fragment :=
  [words ".has('code',within([", values codes, words "]))"]

def ofMutation : Mutation → List Fragment
  | .constrain _ => []
  | .cloneList key codeList =>
      having (NodeLabel.generic codeList) ++ [words ".as('old')"] ++
        mergeClone (NodeLabel.hierarchy key) codeList false
  | .cloneSources key codeList ids hasData =>
      among ids ++ [words ".as('old')"] ++ mergeClone (NodeLabel.hierarchy key) codeList hasData
  | .relateList key codeList =>
      having (NodeLabel.generic codeList) ++ relate (NodeLabel.hierarchy key)
  | .relateSources key ids => among ids ++ relate (NodeLabel.hierarchy key)
  | .copyOrder codeList ids =>
      among ids ++
        [words ".as('gh').out('hasCode').outE('usedBy').where(inV().hasLabel(",
          label (NodeLabel.codeList codeList),
          words (")).values('order').as('o')" ++
            ".select('gh').in('clone_of').property(single,'order',select('o'))")]
  | .linkCode codeList node code =>
      having (NodeLabel.code codeList) ++
        [words ".has('value',", value code, words ").as('c').V(", value node,
          words ").coalesce(__.out('hasCode').where(eq('c')), __.addE('hasCode').to('c'))"]
  | .unlinkClones key => having (NodeLabel.hierarchy key) ++ [words ".outE('clone_of').drop()"]
  | .unlinkSources ids => among ids ++ [words ".inE('clone_of').drop()"]
  | .countChildren key =>
      having (NodeLabel.hierarchy key) ++
        [words ".property(single,'numberOfChildren',__.in('hasParent').count())"]
  | .countChildrenOf ids =>
      among ids ++ [words ".property(single,'numberOfChildren',__.in('hasParent').count())"]
  | .flagData key codes =>
      having (NodeLabel.hierarchy key) ++ withCodes codes ++
        [words ".property(single,'hasData',true)"]
  | .markRemaining key =>
      having (NodeLabel.hierarchy key) ++
        [words ".has('hasData',true).emit().repeat(out('hasParent'))",
          words ".property(single,'remain',true)"]
  | .dropUnmarked key =>
      having (NodeLabel.hierarchy key) ++ [words ".not(has('remain',true)).drop()"]
  | .clearMarks key =>
      having (NodeLabel.hierarchy key) ++ [words ".has('remain').properties('remain').drop()"]

def ofQuery : Query → List Fragment
  | .countNodes key => having (NodeLabel.hierarchy key) ++ [words ".count()"]
  | .dataCodes key => having (NodeLabel.data key) ++ [words ".values('value')"]
  | .nodeIds key => having (NodeLabel.hierarchy key) ++ [words ".id()"]
  | .genericIds codeList codes =>
      having (NodeLabel.generic codeList) ++ withCodes codes ++ idCodeRows
  | .ancestryIds codeList codes =>
      having (NodeLabel.generic codeList) ++ withCodes codes ++
        [words ".repeat(out('hasParent')).emit().dedup()"] ++ idCodeRows
  | .roots key => having (NodeLabel.hierarchy key) ++ [words ".not(outE('hasParent'))"]
  | .element key code =>
      having (NodeLabel.hierarchy key) ++ [words ".has('code',", value code, words ")"]
  | .children key code =>
      having (NodeLabel.hierarchy key) ++
        [words ".has('code',", value code, words ").in('hasParent').hasLabel(",
          label (NodeLabel.hierarchy key), words ").order().by('order').by('label')"]
  | .ancestry key code =>
      having (NodeLabel.hierarchy key) ++
        [words ".has('code',", value code, words ").repeat(out('hasParent').hasLabel(",
          label (NodeLabel.hierarchy key), words ")).emit()"]
  | .countCodes codeList =>
      having (NodeLabel.code codeList) ++
        [words ".where(out('usedBy').hasLabel(", label (NodeLabel.codeList codeList),
          words ")).count()"]
  | .codes codeList => having (NodeLabel.code codeList) ++ [words ".as('c')"] ++ codeRows codeList
  | .code codeList code =>
      having (NodeLabel.code codeList) ++ [words ".has('value',", value code, words ").as('c')"] ++
        codeRows codeList
  | .codesOrder codeList codes =>
      having (NodeLabel.code codeList) ++
        [words ".has('value',within([", values codes,
          words "])).as('c').outE('usedBy').where(inV().hasLabel(",
          label (NodeLabel.codeList codeList),
          words ")).project('code','order').by(select('c').values('value')).by(values('order'))"]

def ofOperation : Operation → List Fragment
  | .mutation m => ofMutation m
  | .query q => ofQuery q

/-- The text of an operation. -/
def render (op : Operation) : String := joinFragments "'" (ofOperation op)

end Statement.Gremlin
end InstanceHierarchy
