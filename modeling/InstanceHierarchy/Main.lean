import InstanceHierarchy.CommandLine

/-!
# The program

Reads the environment and the files of the working directory, and prints what the run leaves
behind.
-/

namespace InstanceHierarchy

/-- Where the variables of the running program can be read. -/
def variablesFile : String := "/proc/self/environ"

/-- The variables that a text of settings, each ended by a NUL, makes. -/
def splitVariables (text : String) : Variables :=
  ⟨(text.splitOn "\x00").filterMap fun entry =>
    match entry.splitOn "=" with
    | name :: value@(_ :: _) => some (name, "=".intercalate value)
    | _ => none⟩

/-- The text of a file, if there is one. -/
def readFile? (name : String) : IO (Option String) := do
  try
    return some (← IO.FS.readFile name)
  catch _ => return none

end InstanceHierarchy

open InstanceHierarchy in
def main : IO UInt32 := do
  let vars := splitVariables ((← readFile? variablesFile).getD "")
  let mut files : Table String := .empty
  for name in [CommandLine.variableFileName, Settings.fileName] do
    if let some text ← readFile? name then files := files.insert name text
  let result := CommandLine.run vars files (.counted IdSupply.firstSeries)
  IO.print result.output
  IO.eprint result.errors
  return result.exitCode.toUInt32
