import InstanceHierarchy.Json.Reader
import InstanceHierarchy.Settings.Layer
import InstanceHierarchy.Text.Shown

/-!
# Failures of settings

A failure says what was found, what was wanted, and where: the path to the value and where the
value came from, as far as these are known.
-/

namespace InstanceHierarchy

/-- A step of a path to a value. -/
inductive PathStep where
  | key (name : String)
  | index (i : Nat)
  deriving DecidableEq

/-- The text of a path; parts are set apart by dots, places in lists by brackets. -/
def PathStep.text : List PathStep → String
  | [] => ""
  | [.key name] => name
  | .key name :: rest@(.index _ :: _) => name ++ PathStep.text rest
  | .key name :: rest => name ++ "." ++ PathStep.text rest
  | .index i :: rest@(.key _ :: _) => "[" ++ toString i ++ "]." ++ PathStep.text rest
  | .index i :: rest => "[" ++ toString i ++ "]" ++ PathStep.text rest

inductive SettingsError where
  /-- The file is not JSON. -/
  | syntaxError (e : Json.SyntaxError) (file : String)
  /-- The file holds something else than an object. -/
  | notObject (found : Setting) (file : String)
  /-- A value cannot be read as the wanted kind of value. -/
  | mismatch (found wanted : String) (path : List PathStep) (origin : Option String)
  /-- A value stands where a group of settings is wanted. -/
  | notGroup (found : Setting) (group : String)
  /-- A list of settings ends too early. -/
  | tooFew (found : Nat) (group : String) (fields : Nat)
  /-- A setting is not there. -/
  | missing (name : String)
  /-- A text is none of the names of a choice. -/
  | noVariant (choice found : String)
  /-- A value is neither a text nor a table with one field. -/
  | notVariant (choice : String)

namespace SettingsError

/-- What kind of value this is, with the given words for numbers. -/
def kindWith (int : Int → String) (float : Double → String) : Setting → String
  | .table .. => "map"
  | .list .. => "sequence"
  | .single v _ =>
      match v with
      | .null => "unit value"
      | .bool b => "boolean `" ++ toString b ++ "`"
      | .int n => int n
      | .float x => float x
      | .str s => "string " ++ Text.shown s
      | .arr _ => "sequence"
      | .obj _ => "map"

/-- What kind of value this is, for messages about single values. -/
def kind : Setting → String :=
  kindWith (fun n => "64-bit integer `" ++ toString n ++ "`")
    fun x => "floating point `" ++ x.toText ++ "`"

/-- What kind of value this is, for messages about groups. -/
def groupKind : Setting → String :=
  kindWith (fun n => "integer `" ++ toString n ++ "`")
    fun x => "floating point `" ++ x.toPointText ++ "`"

def message : SettingsError → String
  | syntaxError e file => e.message ++ " in " ++ file
  | notObject found file =>
      "invalid type: " ++ kind found ++ ", expected a map in " ++ file ++ " in " ++ file
  | mismatch found wanted path origin =>
      "invalid type: " ++ found ++ ", expected " ++ wanted ++
        (if path.isEmpty then "" else " for key `" ++ PathStep.text path ++ "`") ++
        (origin.map (" in " ++ ·)).getD ""
  | notGroup found group => "invalid type: " ++ groupKind found ++ ", expected struct " ++ group
  | tooFew found group fields =>
      "invalid length " ++ toString found ++ ", expected struct " ++ group ++ " with " ++
        toString fields ++ " elements"
  | missing name => "missing field `" ++ name ++ "`"
  | noVariant choice found =>
      "enum " ++ choice ++ " does not have variant constructor " ++ found
  | notVariant choice =>
      "value of enum " ++ choice ++
        " should be represented by either string or table with exactly one key"

/-- The failure as seen from one step further out. -/
def under (step : PathStep) : SettingsError → SettingsError
  | mismatch found wanted path origin => mismatch found wanted (step :: path) origin
  | e => e

end SettingsError
end InstanceHierarchy
