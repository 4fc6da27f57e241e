import InstanceHierarchy.Store.Backend

/-!
# Settings

What a run is told: which kind of backend, how large batches may be, how often to repeat, and what
the demonstration builds.  Settings are read from and written as JSON objects.
-/

namespace InstanceHierarchy

/-- The kinds of backend. -/
inductive BackendKind where
  | gremlin
  | cypher
  deriving DecidableEq

namespace BackendKind

/-- The name in settings. -/
def name : BackendKind → String
  | gremlin => "gremlin"
  | cypher => "cypher"

/-- The name in reports. -/
def title : BackendKind → String
  | gremlin => "Gremlin"
  | cypher => "Cypher"

/-- The kinds by their names. -/
def named : List (String × BackendKind) := [gremlin, cypher].map fun k => (k.name, k)

def ofJson : Reading BackendKind := Reading.variant named

end BackendKind

/-- The limits of batched work. -/
structure BatchSettings where
  readerBatchSize : Nat
  writerBatchSize : Nat
  maxWorkers : Nat
  deriving DecidableEq

namespace BatchSettings

def standard : BatchSettings := ⟨1000, 150, 10⟩

/-- The scheduler for reads. -/
def reading (s : BatchSettings) : BatchScheduler := .of s.readerBatchSize s.maxWorkers

/-- The scheduler for writes. -/
def writing (s : BatchSettings) : BatchScheduler := .of s.writerBatchSize s.maxWorkers

def shape : Shape BatchSettings :=
  BatchSettings.mk <$> .required "reader_batch_size" .size
    <*> .required "writer_batch_size" .size <*> .required "max_workers" .size

def ofJson : Reading BatchSettings := shape.reading "BatchConfig"

def toJson (s : BatchSettings) : Json :=
  .obj [("reader_batch_size", .int s.readerBatchSize),
    ("writer_batch_size", .int s.writerBatchSize), ("max_workers", .int s.maxWorkers)]

end BatchSettings

/-- The limits of repeating. -/
structure RetrySettings where
  maxAttempts : Nat
  /-- The first pause, in milliseconds. -/
  backoff : Nat
  deriving DecidableEq

namespace RetrySettings

def standard : RetrySettings := ⟨5, 20⟩

def policy (s : RetrySettings) : RetryPolicy := .of s.maxAttempts s.backoff

def shape : Shape RetrySettings :=
  RetrySettings.mk <$> .required "max_attempts" (.natural "u32" Limit.nat32Max)
    <*> .required "backoff_ms" (.natural "u64" Limit.nat64Max)

def ofJson : Reading RetrySettings := shape.reading "RetryConfig"

def toJson (s : RetrySettings) : Json :=
  .obj [("max_attempts", .int s.maxAttempts), ("backoff_ms", .int s.backoff)]

end RetrySettings

/-- The hierarchy that the demonstration builds. -/
structure DemoSettings where
  instanceId : Id
  dimension : String
  codeList : Id
  deriving DecidableEq

namespace DemoSettings

def standard : DemoSettings := ⟨"cpih-2021-1", "aggregate", "cpih1dim1aggid"⟩

def key (s : DemoSettings) : HierarchyKey := ⟨s.instanceId, s.dimension⟩

def shape : Shape DemoSettings :=
  DemoSettings.mk <$> .required "instance_id" .text <*> .required "dimension_name" .text
    <*> .required "code_list_id" .text

def ofJson : Reading DemoSettings := shape.reading "DemoConfig"

def toJson (s : DemoSettings) : Json :=
  .obj [("instance_id", .str s.instanceId), ("dimension_name", .str s.dimension),
    ("code_list_id", .str s.codeList)]

end DemoSettings

structure Settings where
  backend : BackendKind
  batch : BatchSettings
  retry : RetrySettings
  demo : DemoSettings
  deriving DecidableEq

namespace Settings

def standard : Settings := ⟨.gremlin, .standard, .standard, .standard⟩

def shape : Shape Settings :=
  Settings.mk <$> .required "backend" BackendKind.ofJson
    <*> .required "batch" BatchSettings.ofJson <*> .required "retry" RetrySettings.ofJson
    <*> .required "demo" DemoSettings.ofJson

def ofJson : Reading Settings := shape.reading "AppConfig"

def toJson (s : Settings) : Json :=
  .obj [("backend", .str s.backend.name), ("batch", s.batch.toJson), ("retry", s.retry.toJson),
    ("demo", s.demo.toJson)]

/-- The backend that settings ask for. -/
def toBackend (s : Settings) : Backend :=
  match s.backend with
  | .gremlin => .gremlin s.batch.reading s.batch.writing
  | .cypher => .cypher s.retry.policy

end Settings
end InstanceHierarchy
