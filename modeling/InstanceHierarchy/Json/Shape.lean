import InstanceHierarchy.Json.Basic
import InstanceHierarchy.Text.Shown

/-!
# Reading records from JSON values

A record is read from an object, whose unknown fields are passed over, or from a list of its fields
in declared order.  In an object the values of known fields are looked at in the object's order, so
the first bad value there is the one reported; only then is a missing field reported, in declared
order.
-/

namespace InstanceHierarchy

/-- Why a value is not the wanted one. -/
inductive DecodeError where
  /-- The value is of another type. -/
  | wrongType (found : Json) (wanted : String)
  /-- The whole number is outside the wanted range. -/
  | outOfRange (found : Int) (wanted : String)
  /-- A list ends before the record's fields do. -/
  | tooFew (found : Nat) (record : String) (fields : Nat)
  /-- A list goes on after the record's fields. -/
  | tooMany (found : Nat)
  | missingField (name : String)
  | unknownVariant (found : String) (known : List String)
  /-- A variant is a text or an object with one field. -/
  | notOneField

/-- What kind of value this is, for messages. -/
def Json.described : Json → String
  | .null => "null"
  | .bool b => "boolean `" ++ toString b ++ "`"
  | .int n => "integer `" ++ toString n ++ "`"
  | .float x => "floating point `" ++ x.toJsonText ++ "`"
  | .str s => "string " ++ Text.shown s
  | .arr _ => "sequence"
  | .obj _ => "map"

namespace DecodeError

def message : DecodeError → String
  | wrongType found wanted => "invalid type: " ++ found.described ++ ", expected " ++ wanted
  | outOfRange found wanted =>
      "invalid value: integer `" ++ toString found ++ "`, expected " ++ wanted
  | tooFew found record fields =>
      "invalid length " ++ toString found ++ ", expected struct " ++ record ++ " with " ++
        toString fields ++ " elements"
  | tooMany found => "invalid length " ++ toString found ++ ", expected fewer elements in array"
  | missingField name => "missing field `" ++ name ++ "`"
  | unknownVariant found known =>
      "unknown variant `" ++ found ++ "`, expected " ++
        " or ".intercalate (known.map fun k => "`" ++ k ++ "`")
  | notOneField => "invalid value: map, expected map with a single key"

end DecodeError

/-- A reading of JSON values as values of a type. -/
abbrev Reading (α : Type) := Json → Except DecodeError α

namespace Reading

def text : Reading String
  | .str s => .ok s
  | v => .error (.wrongType v "a string")

def bool : Reading Bool
  | .bool b => .ok b
  | v => .error (.wrongType v "a boolean")

/-- A whole number between two bounds; `kind` names the range. -/
def integer (kind : String) (least greatest : Int) : Reading Int
  | .int n => if least ≤ n ∧ n ≤ greatest then .ok n else .error (.outOfRange n kind)
  | v => .error (.wrongType v kind)

/-- A whole number of 64 bits with a sign. -/
def int64 : Reading Int := integer "i64" Limit.int64Min Limit.int64Max

/-- A whole number without a sign up to a bound. -/
def natural (kind : String) (greatest : Nat) : Reading Nat := fun v =>
  (integer kind 0 greatest v).map Int.toNat

/-- A size. -/
def size : Reading Nat := natural "usize" Limit.nat64Max

/-- Nothing for null. -/
def optional (read : Reading α) : Reading (Option α)
  | .null => .ok none
  | v => (read v).map some

/-- A list, item by item; the first bad item is reported. -/
def list (read : Reading α) : Reading (List α)
  | .arr items => items.mapM read
  | v => .error (.wrongType v "a sequence")

/-- An object's fields as a table. -/
def table : Reading (Table Json)
  | .obj fields => .ok (Table.ofList fields)
  | v => .error (.wrongType v "a map")

/-- One of several named constants: its name alone, or the name as the only field of an object
whose value is null. -/
def variant (known : List (String × α)) : Reading α
  | .str s => pick s
  | .obj [(s, v)] =>
      (pick s).bind fun a =>
        match v with
        | .null => .ok a
        | v => .error (.wrongType v "unit")
  | .obj _ => .error .notOneField
  | v => .error (.wrongType v "string or map")
where
  pick (s : String) : Except DecodeError α :=
    match Entries.get? s known with
    | some a => .ok a
    | none => .error (.unknownVariant s (known.map (·.1)))

end Reading

/-- How the fields of a record are read. -/
structure Shape (α : Type) where
  /-- The number of fields. -/
  width : Nat
  /-- Whether a named value can be read; a name that is not a field's always can. -/
  check : String → Json → Except DecodeError Unit
  /-- The record that an object's fields make. -/
  ofFields : Entries Json → Except DecodeError α
  /-- The record that the front of a list makes, and the rest.  The number of items taken before is
  given, and the failure for a list that ends too early. -/
  ofItems : (Nat → DecodeError) → Nat → List Json → Except DecodeError (α × List Json)

namespace Shape

/-- A record without fields. -/
def pure (a : α) : Shape α where
  width := 0
  check _ _ := .ok ()
  ofFields _ := .ok a
  ofItems _ _ items := .ok (a, items)

/-- The fields of one record and then those of another. -/
def seq (f : Shape (α → β)) (x : Shape α) : Shape β where
  width := f.width + x.width
  check k v := (f.check k v).bind fun _ => x.check k v
  ofFields fields := (f.ofFields fields).bind fun g => (x.ofFields fields).map g
  ofItems short taken items :=
    (f.ofItems short taken items).bind fun (g, rest) =>
      (x.ofItems short (taken + f.width) rest).map fun (a, rest) => (g a, rest)

instance : Applicative Shape where
  pure := Shape.pure
  seq f x := Shape.seq f (x ())

/-- One field.  `absent` is what an object without it makes, `cut` what a list that ends before it
makes. -/
def field (name : String) (read : Reading α) (absent : Except DecodeError α)
    (cut : Option α) : Shape α where
  width := 1
  check k v := if k = name then (read v).map fun _ => () else .ok ()
  ofFields fields :=
    match Entries.get? name fields with
    | some v => read v
    | none => absent
  ofItems short taken
    | v :: rest => (read v).map fun a => (a, rest)
    | [] =>
        match cut with
        | some a => .ok (a, [])
        | none => .error (short taken)

/-- A field that has to be there. -/
def required (name : String) (read : Reading α) : Shape α :=
  field name read (.error (.missingField name)) none

/-- A field that an object may lack, and a list may not. -/
def optional (name : String) (read : Reading α) : Shape (Option α) :=
  field name (Reading.optional read) (.ok none) none

/-- A field with a value of its own when it is not given. -/
def defaulted (name : String) (read : Reading α) (a : α) : Shape α :=
  field name read (.ok a) (some a)

/-- The reading of a whole record. -/
def reading (record : String) (shape : Shape α) : Reading α
  | .obj fields =>
      (fields.forM fun e => shape.check e.1 e.2).bind fun _ => shape.ofFields fields
  | .arr items =>
      (shape.ofItems (fun n => .tooFew n record shape.width) 0 items).bind fun (a, rest) =>
        if rest.isEmpty then .ok a else .error (.tooMany items.length)
  | v => .error (.wrongType v ("struct " ++ record))

end Shape
end InstanceHierarchy
