import InstanceHierarchy.MachineNumber
import InstanceHierarchy.Table

/-!
# JSON values

Property values, store replies and configuration files are JSON.  A whole number is kept exactly;
any other number is kept as a double, so two floats are the same value exactly when
they are the same bits.  The fields of an object stand in the order they are to be written; the
reader and the tables produce ascending key order.
-/

namespace InstanceHierarchy

inductive Json where
  | null
  | bool (b : Bool)
  | int (n : Int)
  | float (x : Double)
  | str (s : String)
  | arr (items : List Json)
  | obj (fields : List (String × Json))

namespace Json

instance : Inhabited Json := ⟨null⟩

mutual

/-- Structural equality. -/
def same : Json → Json → Bool
  | .null, .null => true
  | .bool a, .bool b => a == b
  | .int a, .int b => a == b
  | .float a, .float b => a == b
  | .str a, .str b => a == b
  | .arr as, .arr bs => sameItems as bs
  | .obj as, .obj bs => sameFields as bs
  | _, _ => false

def sameItems : List Json → List Json → Bool
  | [], [] => true
  | a :: as, b :: bs => same a b && sameItems as bs
  | _, _ => false

def sameFields : List (String × Json) → List (String × Json) → Bool
  | [], [] => true
  | (k, a) :: as, (l, b) :: bs => k == l && same a b && sameFields as bs
  | _, _ => false

end

instance : BEq Json := ⟨same⟩

/-- The text of a string value. -/
def text? : Json → Option String
  | .str s => some s
  | _ => none

/-- The truth value of a boolean. -/
def bool? : Json → Option Bool
  | .bool b => some b
  | _ => none

/-- The value of a whole number that fits 64 bits with a sign; a float is never one. -/
def int64? : Json → Option Int
  | .int n => if Limit.int64Min ≤ n ∧ n ≤ Limit.int64Max then some n else none
  | _ => none

/-- The value of an object's field. -/
def field? (k : String) : Json → Option Json
  | .obj fields => Entries.get? k fields
  | _ => none

/-- A text, or null for none. -/
def ofText? : Option String → Json
  | some s => .str s
  | none => .null

/-- A whole number, or null for none. -/
def ofInt? : Option Int → Json
  | some n => .int n
  | none => .null

/-- The object with a table's entries. -/
def ofTable (t : Table Json) : Json := .obj t.entries

end Json
end InstanceHierarchy
