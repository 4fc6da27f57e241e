import InstanceHierarchy.Json.Basic
import InstanceHierarchy.Settings.Path
import InstanceHierarchy.Text.Case

/-!
# Layers of settings

Settings come in layers: the standard ones, a file, and the environment.  A layer is laid over the
ones below by setting paths.  Tables merge deeply and everything else replaces what was there.  A
path that leads through something else than the table or list it needs replaces that by an empty
one, and a list grows up to the place that is set.
-/

namespace InstanceHierarchy

/-- A value of a layer.  Each has the place it came from; what a standard value or a path made comes
from nowhere. -/
inductive Setting where
  | table (fields : List (String × Setting)) (origin : Option String)
  | list (items : List Setting) (origin : Option String)
  /-- A value that is neither a table nor a list. -/
  | single (v : Json) (origin : Option String)

namespace Setting

/-- What stands where nothing was set. -/
def unset : Setting := .single .null none

instance : Inhabited Setting := ⟨unset⟩

/-- Where a value came from. -/
def origin : Setting → Option String
  | table _ origin => origin
  | list _ origin => origin
  | single _ origin => origin

/-- The fields and the origin of a table; anything else gives way to an empty one. -/
def asTable : Setting → Entries Setting × Option String
  | table fields origin => (fields, origin)
  | _ => ([], none)

/-- The items and the origin of a list; anything else gives way to an empty one. -/
def asList : Setting → List Setting × Option String
  | list items origin => (items, origin)
  | _ => ([], none)

/-- Put a value under a key of a table.  Keys are kept in lower case. -/
def put (key : String) (s root : Setting) : Setting :=
  .table (root.asTable.1.insert (Text.lower key) s) root.asTable.2

/-- What a table holds under a key. -/
def field? (key : String) (root : Setting) : Option Setting :=
  root.asTable.1.get? (Text.lower key)

mutual

/-- Set a field, merging tables into tables. -/
def setField (key : String) : Setting → Setting → Setting
  | .table incoming _, root =>
      put key (setFields incoming ((root.field? key).getD (.table [] none))) root
  | s, root => put key s root

/-- Set fields one after another. -/
def setFields : List (String × Setting) → Setting → Setting
  | [], root => root
  | (key, s) :: rest, root => setFields rest (setField key s root)

end

/-- The items that a list lacks in front and behind to have a place. -/
def lacking (length : Nat) (place : Int) : Nat × Nat :=
  if 0 ≤ place then (0, place.toNat + 1 - length) else (place.natAbs - length, 0)

/-- Change the item at a place of a list, which grows up to there.  A negative place counts back
from the end, and then the list grows in front. -/
def setItem (place : Int) (change : Setting → Setting) (root : Setting) : Setting :=
  let (items, origin) := root.asList
  let (front, behind) := lacking items.length place
  let grown := List.replicate front unset ++ items ++ List.replicate behind unset
  let i := if 0 ≤ place then place.toNat else grown.length - place.natAbs
  .list (grown.modify i change) origin

/-- Set the value that a path leads to.  A table merges into one that a key leads to, and replaces
one at a place of a list. -/
def setPath : List PathPart → Setting → Setting → Setting
  | [], s, _ => s
  | [.key name], s, root => setField name s root
  | .key name :: rest, s, root =>
      put name (setPath rest s ((root.field? name).getD unset)) root
  | .place i :: rest, s, root => setItem i (setPath rest s) root

mutual

/-- The setting that a JSON value makes.  Whole numbers that do not fit 64 bits with a sign become
floats. -/
def ofJson (origin : Option String) : Json → Setting
  | .obj fields => .table (ofFields origin fields) origin
  | .arr items => .list (ofItems origin items) origin
  | .int n =>
      if Limit.int64Min ≤ n ∧ n ≤ Limit.int64Max then .single (.int n) origin
      else .single (.float (.ofNat n.toNat)) origin
  | v => .single v origin

def ofFields (origin : Option String) : List (String × Json) → List (String × Setting)
  | [] => []
  | (key, v) :: rest => (key, ofJson origin v) :: ofFields origin rest

def ofItems (origin : Option String) : List Json → List Setting
  | [] => []
  | v :: rest => ofJson origin v :: ofItems origin rest

end

/-- Lay the entries of a layer over a setting; each entry's key is a path once it is in lower
case. -/
def lay (entries : List (String × Setting)) (root : Setting) : Setting :=
  entries.foldl (fun root e => setPath (PathPart.ofKey (Text.lower e.1)) e.2 root) root

end Setting
end InstanceHierarchy
