import InstanceHierarchy.Build
import InstanceHierarchy.Settings.Basic

/-!
# The demonstration

One hierarchy is built in memory over a sample code list, a small one of consumer prices, from a
single data point, and its root is read back.
-/

namespace InstanceHierarchy

/-! ## Sample data -/

namespace Sample

/-- The code list of the sample. -/
def codeList : Id := "cpih1dim1aggid"

/-- A code of the sample with its label, its parent's code and its place in the code list. -/
structure SampleCode where
  code : String
  label : String
  parent : Option String
  order : Int

def codes : List SampleCode :=
  [⟨"cpih1dim1A0", "CPIH (overall index)", none, 0⟩,
    ⟨"cpih1dim1T90000", "09 Recreation and culture", some "cpih1dim1A0", 9⟩,
    ⟨"cpih1dim1G90400", "09.4 Recreational and cultural services", some "cpih1dim1T90000", 4⟩,
    ⟨"cpih1dim1S90401", "09.4.1 Recreational and sporting services", some "cpih1dim1G90400", 1⟩,
    ⟨"cpih1dim1S90402", "09.4.2 Cultural services", some "cpih1dim1G90400", 2⟩]

/-- The id of the generic node of a code. -/
def genericId (code : String) : Id := codeList ++ "--" ++ code

/-- The id of the code list's node of a code. -/
def codeId (code : String) : Id := codeList ++ "_code_" ++ code

/-- Add a code with its generic node and its place in the code list. -/
def addCode (g : Graph) (c : SampleCode) : Graph :=
  let generic := Node.bare (genericId c.code) (NodeLabel.generic codeList)
    |>.withProperty Property.code (.str c.code)
    |>.withProperty Property.label (.str c.label)
  let listed := Node.bare (codeId c.code) (NodeLabel.code codeList)
    |>.withProperty Property.value (.str c.code)
    |>.withProperty Property.label (.str c.label)
  let place := Table.empty.insert Property.order (.int c.order)
  (((g.addNode generic).addNode listed).addEdge EdgeLabel.usedBy listed.id codeList place).2

/-- Put the generic node of a code under that of the code's parent. -/
def addParent (g : Graph) (c : SampleCode) : Graph :=
  match c.parent with
  | some parent =>
      (g.addEdge EdgeLabel.hasParent (genericId c.code) (genericId parent) .empty).2
  | none => g

/-- Add the sample code list and its generic hierarchy. -/
def addCodeList (g : Graph) : Graph :=
  let g := g.addNode (.bare codeList (NodeLabel.codeList codeList))
  codes.foldl addParent (codes.foldl addCode g)

/-- Add one data point for each code that an instance has observations for. -/
def addObservations (g : Graph) (key : HierarchyKey) (codes : List String) : Graph :=
  codes.foldl (fun g code =>
    (g.addVertex ⟨NodeLabel.data key, Table.empty.insert Property.value (.str code)⟩).2) g

end Sample

/-! ## Building over it -/

/-- A failure with what was attempted. -/
structure DemoError where
  attempt : String
  cause : StoreError

namespace DemoError

/-- The texts from the attempt down to the root cause. -/
def chain (e : DemoError) : List String := e.attempt :: e.cause.chain.map (·.message)

end DemoError

/-- The codes that the demonstration has observations for. -/
def demoCodes : List String := ["cpih1dim1S90401"]

/-- Run the demonstration on new ids from a supply: the report of the build and the root. -/
def runDemo (s : Settings) (supply : IdSupply) : Except DemoError (BuildReport × ElementView) :=
  let backend := s.toBackend
  let key := s.demo.key
  let g := Sample.addObservations (Sample.addCodeList (.empty supply)) key demoCodes
  let (report, g) := Environment.graph.run (backend.build true key s.demo.codeList) g
  match report with
  | .error e =>
      .error
        ⟨"failed to build hierarchy for instance " ++ key.instanceId ++ " dimension " ++
          key.dimension, e⟩
  | .ok report =>
      match (Environment.graph.run (backend.reader.root key) g).1 with
      | .error e => .error ⟨"failed to read hierarchy root", e⟩
      | .ok root => .ok (report, root)

end InstanceHierarchy
