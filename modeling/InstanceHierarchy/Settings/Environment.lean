import InstanceHierarchy.Settings.Layer

/-!
# Settings from environment variables

The variables of a process stand in the order in which they were set.  A variable counts when its
name begins with the mark of the program; the rest of the name is the path, with two underscores
between the parts.  The text of a variable is read as a truth value, a whole number or another
number if it looks like one.
-/

namespace InstanceHierarchy

/-- Names and their values, first set first. -/
structure Variables where
  entries : List (String × String)

namespace Variables

/-- The value of a variable, if it is set. -/
def get? (vars : Variables) (name : String) : Option String :=
  (vars.entries.find? fun e => e.1 = name).map (·.2)

/-- Set a variable that is not set yet; one that is set stays as it is. -/
def setNew (vars : Variables) (name value : String) : Variables :=
  if (vars.get? name).isSome then vars else ⟨vars.entries ++ [(name, value)]⟩

end Variables

/-- The value that the text of a variable writes. -/
def readVariable (s : String) : Json :=
  let word := Text.lower s
  if word = "true" then .bool true
  else if word = "false" then .bool false
  else
    match Text.readInteger s, Text.readFloat s with
    | some n, _ => .int n
    | none, some x => .float x
    | none, none => .str s

/-- What the names of the variables that count begin with, in any case. -/
def variableMark : String := "hierarchy_"

/-- Where a value from a variable comes from. -/
def environmentOrigin : String := "the environment"

/-- The part of a text after a beginning that it must have. -/
def dropMark (mark s : String) : Option String :=
  if mark.toList.isPrefixOf s.toList then some (String.ofList (s.toList.drop mark.length)) else none

/-- The entries that the variables which count make. -/
def variableEntries (vars : Variables) : List (String × Setting) :=
  vars.entries.filterMap fun (name, text) =>
    (dropMark variableMark (Text.lower name)).map fun rest =>
      (".".intercalate (rest.splitOn "__"), .single (readVariable text) (some environmentOrigin))

end InstanceHierarchy
