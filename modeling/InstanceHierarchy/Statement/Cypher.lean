import InstanceHierarchy.Statement.Fragment

/-!
# Statements in Cypher

Pattern matches.  Labels stand between backticks.
-/

namespace InstanceHierarchy
namespace Statement.Cypher

open Fragment

/-- A pattern for nodes with a label, held under a name. -/
def node (held : String) (s : String) : List Fragment :=
  [words ("(" ++ held ++ ":"), label s, words ")"]

/-- A pattern for nodes with a label and a property. -/
def nodeWith (held : String) (s : String) (key : String) (v : Fragment) : List Fragment :=
  [words ("(" ++ held ++ ":"), label s, words (" \x7b " ++ key ++ ": "), v, words " \x7d)"]

/-- For each matched source `g`: its clone, made new or found by the code, linked to it. -/
def mergeClone (target : String) (codeList : Id) (hasData : Bool) : List Fragment :=
  [words " MERGE "] ++ nodeWith "n" target "code" (words "g.code") ++
    [words " ON CREATE SET n.label = g.label, n.code_list = ", value codeList,
      words (", n.hasData = " ++ toString hasData ++ " MERGE (n)-[:clone_of]->(g)")]

/-- For each matched pair of generic nodes: the same parent edge between their clones. -/
def relate (target : String) : List Fragment :=
  [words " MATCH "] ++ node "n" target ++ [words "-[:clone_of]->(g) MATCH "] ++ node "p" target ++
    [words "-[:clone_of]->(gp) MERGE (n)-[:hasParent]->(p)"]

/-- The codes of a code list, with the edges that place them. -/
def usedBy (code : List Fragment) (edge : String) (codeList : Id) : List Fragment :=
  [words "MATCH "] ++ code ++ [words ("-[" ++ edge ++ ":usedBy]->")] ++
    node "" (NodeLabel.codeList codeList)

def ofMutation : Mutation → List Fragment
  | .constrain key =>
      [words "CREATE CONSTRAINT ON "] ++ node "n" (NodeLabel.hierarchy key) ++
        [words " ASSERT n.code IS UNIQUE"]
  | .cloneList key codeList =>
      [words "MATCH "] ++ node "g" (NodeLabel.generic codeList) ++
        mergeClone (NodeLabel.hierarchy key) codeList false
  | .cloneSources key codeList ids hasData =>
      [words "MATCH (g) WHERE id(g) IN [", values ids, words "]"] ++
        mergeClone (NodeLabel.hierarchy key) codeList hasData
  | .relateList key codeList =>
      [words "MATCH "] ++ node "g" (NodeLabel.generic codeList) ++ [words "-[:hasParent]->"] ++
        node "gp" (NodeLabel.generic codeList) ++ relate (NodeLabel.hierarchy key)
  | .relateSources key ids =>
      [words "MATCH (g)-[:hasParent]->(gp) WHERE id(g) IN [", values ids, words "]"] ++
        relate (NodeLabel.hierarchy key)
  | .copyOrder codeList ids =>
      [words "MATCH (n)-[:clone_of]->(g)-[:hasCode]->(c)-[r:usedBy]->"] ++
        node "" (NodeLabel.codeList codeList) ++
        [words " WHERE id(g) IN [", values ids, words "] SET n.order = r.order"]
  | .linkCode codeList n code =>
      [words "MATCH (g) WHERE id(g) = ", value n, words " MATCH "] ++
        nodeWith "c" (NodeLabel.code codeList) "value" (value code) ++
        [words " MERGE (g)-[:hasCode]->(c)"]
  | .unlinkClones key =>
      [words "MATCH "] ++ node "n" (NodeLabel.hierarchy key) ++ [words "-[r:clone_of]->() DELETE r"]
  | .unlinkSources ids =>
      [words "MATCH ()-[r:clone_of]->(g) WHERE id(g) IN [", values ids, words "] DELETE r"]
  | .countChildren key =>
      [words "MATCH "] ++ node "n" (NodeLabel.hierarchy key) ++
        [words " SET n.numberOfChildren = size((n)<-[:hasParent]-"] ++
        node "" (NodeLabel.hierarchy key) ++ [words ")"]
  | .countChildrenOf ids =>
      [words "MATCH (n) WHERE id(n) IN [", values ids,
        words "] SET n.numberOfChildren = size((n)<-[:hasParent]-())"]
  | .flagData key codes =>
      [words "MATCH "] ++ node "n" (NodeLabel.hierarchy key) ++
        [words " WHERE n.code IN [", values codes, words "] SET n.hasData = true"]
  | .markRemaining key =>
      [words "MATCH "] ++ node "parent" (NodeLabel.hierarchy key) ++
        [words "<-[:hasParent*0..]-"] ++
        nodeWith "n" (NodeLabel.hierarchy key) "hasData" (words "true") ++
        [words " SET parent.remain = true"]
  | .dropUnmarked key =>
      [words "MATCH "] ++ node "n" (NodeLabel.hierarchy key) ++
        [words " WHERE NOT exists(n.remain) DETACH DELETE n"]
  | .clearMarks key =>
      [words "MATCH "] ++ node "n" (NodeLabel.hierarchy key) ++ [words " REMOVE n.remain"]

def ofQuery : Query → List Fragment
  | .countNodes key =>
      [words "MATCH "] ++ node "n" (NodeLabel.hierarchy key) ++ [words " RETURN count(n)"]
  | .dataCodes key => [words "MATCH "] ++ node "d" (NodeLabel.data key) ++ [words " RETURN d.value"]
  | .nodeIds key =>
      [words "MATCH "] ++ node "n" (NodeLabel.hierarchy key) ++ [words " RETURN id(n)"]
  | .genericIds codeList codes =>
      [words "MATCH "] ++ node "g" (NodeLabel.generic codeList) ++
        [words " WHERE g.code IN [", values codes,
          words "] RETURN id(g) AS node_id, g.code AS node_code"]
  | .ancestryIds codeList codes =>
      [words "MATCH "] ++ node "g" (NodeLabel.generic codeList) ++ [words "-[:hasParent*1..]->"] ++
        node "a" (NodeLabel.generic codeList) ++
        [words " WHERE g.code IN [", values codes,
          words "] RETURN DISTINCT id(a) AS node_id, a.code AS node_code"]
  | .roots key =>
      [words "MATCH "] ++ node "n" (NodeLabel.hierarchy key) ++
        [words " WHERE NOT (n)-[:hasParent]->() RETURN n"]
  | .element key code =>
      [words "MATCH "] ++ nodeWith "n" (NodeLabel.hierarchy key) "code" (value code) ++
        [words " RETURN n"]
  | .children key code =>
      [words "MATCH "] ++ nodeWith "n" (NodeLabel.hierarchy key) "code" (value code) ++
        [words "<-[:hasParent]-"] ++ node "c" (NodeLabel.hierarchy key) ++
        [words " RETURN c ORDER BY c.order, c.label"]
  | .ancestry key code =>
      [words "MATCH p = "] ++ nodeWith "n" (NodeLabel.hierarchy key) "code" (value code) ++
        [words "-[:hasParent*]->"] ++ node "a" (NodeLabel.hierarchy key) ++
        [words " RETURN a ORDER BY length(p) ASC"]
  | .countCodes codeList =>
      usedBy (node "c" (NodeLabel.code codeList)) "" codeList ++
        [words " RETURN count(DISTINCT c)"]
  | .codes codeList =>
      usedBy (node "c" (NodeLabel.code codeList)) "r" codeList ++
        [words (" RETURN c.value AS code, c.label AS label, r.order AS order" ++
          " ORDER BY r.order, c.value")]
  | .code codeList code =>
      usedBy (nodeWith "c" (NodeLabel.code codeList) "value" (value code)) "r" codeList ++
        [words " RETURN c.value AS code, c.label AS label, r.order AS order"]
  | .codesOrder codeList codes =>
      usedBy (node "c" (NodeLabel.code codeList)) "r" codeList ++
        [words " WHERE c.value IN [", values codes,
          words "] RETURN c.value AS code, r.order AS order"]

def ofOperation : Operation → List Fragment
  | .mutation m => ofMutation m
  | .query q => ofQuery q

/-- The text of an operation. -/
def render (op : Operation) : String := joinFragments "`" (ofOperation op)

end Statement.Cypher
end InstanceHierarchy
