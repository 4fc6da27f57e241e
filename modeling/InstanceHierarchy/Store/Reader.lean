import InstanceHierarchy.Store.Program

/-!
# Reading hierarchies and code lists

Every read is one statement or a few, sent once.  A failure of the store is reported with the
statement; a reply that cannot be understood, or that holds none or several where one is wanted, is
reported without.
-/

namespace InstanceHierarchy

/-- The element that a hierarchy node is shown as; it needs a code and a label. -/
def Element.ofNode (n : Node) : Except StoreError Element :=
  match n.text? Property.code with
  | none => .error (.decode ("node " ++ n.id ++ " has no code"))
  | some code =>
      match n.text? Property.label with
      | none => .error (.decode ("node " ++ n.id ++ " has no label"))
      | some label =>
          .ok
            { id := code
              label
              numberOfChildren := (n.int64? Property.numberOfChildren).getD 0
              hasData := (n.bool? Property.hasData).getD false
              order := n.int64? Property.order }

/-- The only item of a list. -/
def exactlyOne : List α → Except StoreError α
  | [] => .error .notFound
  | [a] => .ok a
  | _ => .error .multipleFound

/-- A reader of what the store holds, in one query language. -/
structure Reader where
  dialect : Dialect

namespace Reader

/-- Send a query. -/
def ask (r : Reader) (m : Method) (q : Query) : StoreM m.Reply :=
  StoreM.call m (.of r.dialect (.query q))

/-- Send a query and read a record from each row of the reply. -/
def askRows (r : Reader) (read : Reading α) (q : Query) : StoreM (List α) := do
  let rows ← r.ask .tabular q
  liftExcept (rows.mapM fun row => (read row).mapError fun e => StoreError.decode e.message)

/-- Send a query and show each node of the reply as an element. -/
def askElements (r : Reader) (q : Query) : StoreM (List Element) := do
  let nodes ← r.ask .nodes q
  liftExcept (nodes.mapM Element.ofNode)

/-! ## Hierarchies -/

/-- How many nodes a hierarchy has. -/
def countNodes (r : Reader) (key : HierarchyKey) : StoreM Int := r.ask .count (.countNodes key)

/-- The codes that an instance has observations for. -/
def dataCodes (r : Reader) (key : HierarchyKey) : StoreM (List String) :=
  r.ask .strings (.dataCodes key)

/-- The ids of a hierarchy's nodes. -/
def nodeIds (r : Reader) (key : HierarchyKey) : StoreM TextSet :=
  return TextSet.ofList (← r.ask .strings (.nodeIds key))

/-- The nodes of a hierarchy that have no parent. -/
def roots (r : Reader) (key : HierarchyKey) : StoreM (List Node) := r.ask .nodes (.roots key)

/-- Whether a hierarchy has been built.  Several roots are a failure, but one that implies that a
hierarchy exists. -/
def exists? (r : Reader) (key : HierarchyKey) : StoreM Bool := do
  match ← r.roots key with
  | [] => return false
  | [_] => return true
  | _ => throw .multipleFound

/-- The code list that a hierarchy was built from, as its root names it. -/
def codeList (r : Reader) (key : HierarchyKey) : StoreM Id := do
  let root ← liftExcept (exactlyOne (← r.roots key))
  match root.text? Property.codeList with
  | some codeList => return codeList
  | none => throw .notFound

/-- A node with its children and, if wanted, its ancestors. -/
def view (r : Reader) (key : HierarchyKey) (n : Node) (withBreadcrumbs : Bool) :
    StoreM ElementView := do
  let element ← liftExcept (Element.ofNode n)
  let children ← r.askElements (.children key element.id)
  let breadcrumbs ← if withBreadcrumbs then r.askElements (.ancestry key element.id) else pure []
  return { ElementView.ofElement element with children, breadcrumbs }

/-- The view of a hierarchy's root, which has no breadcrumbs. -/
def root (r : Reader) (key : HierarchyKey) : StoreM ElementView := do
  let root ← liftExcept (exactlyOne (← r.roots key))
  r.view key root false

/-- The view of a hierarchy's node with a code. -/
def element (r : Reader) (key : HierarchyKey) (code : String) : StoreM ElementView := do
  let node ← liftExcept (exactlyOne (← r.ask .nodes (.element key code)))
  r.view key node true

/-! ## Code lists -/

/-- How many codes a code list has. -/
def countCodes (r : Reader) (codeList : Id) : StoreM Int := r.ask .count (.countCodes codeList)

/-- The codes of a code list in their order. -/
def codes (r : Reader) (codeList : Id) : StoreM (List CodeEntry) :=
  r.askRows CodeEntry.ofJson (.codes codeList)

/-- One code of a code list. -/
def code (r : Reader) (codeList : Id) (code : String) : StoreM CodeEntry := do
  liftExcept (exactlyOne (← r.askRows CodeEntry.ofJson (.code codeList code)))

/-- The places of some codes; a code that is not in the list is left out, and a listed code may have
no place. -/
def codesOrder (r : Reader) (codeList : Id) (codes : List String) :
    StoreM (Table (Option Int)) := do
  let wanted := (TextSet.ofList codes).toList
  if wanted.isEmpty then return .empty
  let rows ← r.askRows CodeOrder.ofJson (.codesOrder codeList wanted)
  return Table.ofList (rows.map fun row => (row.code, row.order))

end Reader
end InstanceHierarchy
