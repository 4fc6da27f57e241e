import InstanceHierarchy.Demo
import InstanceHierarchy.Json.Printer
import InstanceHierarchy.Settings.Load
import InstanceHierarchy.Settings.VariableFile

/-!
# The command line

The program takes no arguments: its settings come from the environment, a variable file and a
settings file.  It runs the demonstration and prints the report and the root, or the failure with
its causes.
-/

namespace InstanceHierarchy

/-- What a run of the program leaves behind. -/
structure RunResult where
  exitCode : Nat
  /-- The text on standard output. -/
  output : String
  /-- The text on standard error. -/
  errors : String

namespace CommandLine

/-- The file that sets environment variables. -/
def variableFileName : String := ".env"

/-- Several texts, each ended by a line break. -/
def asLines (texts : List String) : String := String.join (texts.map (· ++ "\n"))

/-- A text whose lines after the first are indented. -/
def indentRest (indent text : String) : String := ("\n" ++ indent).intercalate (text.splitOn "\n")

/-- A number at the right end of some columns. -/
def numberColumn (width n : Nat) : String :=
  let digits := toString n
  String.ofList (List.replicate (width - digits.length) ' ') ++ digits

/-- The causes of a failure, numbered if there are several. -/
def causeLines : List String → List String
  | [cause] => ["    " ++ indentRest "    " cause]
  | causes => causes.zipIdx.map fun (cause, i) =>
      numberColumn 5 i ++ ": " ++ indentRest "       " cause

/-- The report of a failure: the outermost text and the causes under it. -/
def failureText (text : String) (causes : List String) : String :=
  asLines (("Error: " ++ text) ::
    if causes.isEmpty then [] else "" :: "Caused by:" :: causeLines causes)

def greeting : String := "Hierarchy store: instance hierarchy builder"

def settingsLine (s : Settings) : String :=
  "Configuration loaded: backend=" ++ s.backend.title ++
    " reader_batch_size=" ++ toString s.batch.readerBatchSize ++
    " writer_batch_size=" ++ toString s.batch.writerBatchSize ++
    " max_workers=" ++ toString s.batch.maxWorkers

def buildLine (s : Settings) : String :=
  "Building hierarchy for instance " ++ s.demo.instanceId ++ " dimension " ++ s.demo.dimension ++
    " from code list " ++ s.demo.codeList ++ "..."

/-- Run the program with environment variables and with the files of the working directory. -/
def run (vars : Variables) (files : Table String) (supply : IdSupply) : RunResult :=
  let vars :=
    match files.get? variableFileName with
    | some text => VariableFile.load text vars
    | none => vars
  match Settings.load vars (files.get? Settings.fileName) with
  | .error e => ⟨1, asLines [greeting], failureText e.message []⟩
  | .ok s =>
      let begun := [greeting, settingsLine s, buildLine s]
      match runDemo s supply with
      | .error e => ⟨1, asLines begun, failureText e.attempt (e.chain.drop 1)⟩
      | .ok (report, root) =>
          ⟨0, asLines (begun ++
            ["Build finished: " ++ report.toJson.compact, root.toJson.pretty]), ""⟩

end CommandLine
end InstanceHierarchy
