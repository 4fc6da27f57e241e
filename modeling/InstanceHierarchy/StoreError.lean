import InstanceHierarchy.Text.Basic
import InstanceHierarchy.Text.Shown

/-!
# Failures of a graph store

A failure is a cause, or a cause together with the statement that ran into it.  A statement is
attached once: attaching another one to a failure that already names its statement changes nothing,
so the statement reported is always the one that was sent.
-/

namespace InstanceHierarchy

inductive StoreError where
  /-- A lookup for exactly one thing found none. -/
  | notFound
  /-- A lookup for at most one thing found several. -/
  | multipleFound
  /-- The store has no such operation. -/
  | notImplemented (operation : String)
  /-- A passing fault: the same statement may succeed when it is sent again. -/
  | transient (message : String)
  /-- A lasting fault: the statement was refused. -/
  | backend (message : String)
  /-- A reply does not have the shape that was asked for. -/
  | decode (message : String)
  /-- The time for the call is over. -/
  | deadlineExceeded
  /-- A failure with the text of the statement that ran into it. -/
  | statement (text : String) (cause : StoreError)
  deriving DecidableEq, Inhabited

namespace StoreError

/-- What a failure says. -/
def message : StoreError → String
  | notFound => "not found"
  | multipleFound => "multiple found where one expected"
  | notImplemented op => "operation not implemented by this backend: " ++ op
  | transient m => "transient backend error: " ++ m
  | backend m => "backend error: " ++ m
  | decode m => "failed to decode response: " ++ m
  | deadlineExceeded => "deadline exceeded"
  | statement text _ => "statement failed: " ++ Text.shown text

/-- The words by which a store says that it refused a statement for good. -/
def refusalMarks : List String :=
  ["MALFORMED REQUEST", "INVALID REQUEST ARGUMENTS", "InvalidParameter", "SyntaxError",
    "Neo.ClientError.Statement"]

/-- The failure that a store's own message reports: lasting if it bears a mark of refusal, passing
otherwise. -/
def ofMessage (m : String) : StoreError :=
  if refusalMarks.any fun mark => Text.isIn mark m then backend m else transient m

/-- Attach the statement that ran into a failure, unless one is attached. -/
def withStatement (e : StoreError) (text : String) : StoreError :=
  match e with
  | statement _ _ => e
  | _ => statement text e

/-- The cause under all attached statements. -/
def root : StoreError → StoreError
  | statement _ cause => cause.root
  | e => e

/-- The failure directly under an attached statement. -/
def source? : StoreError → Option StoreError
  | statement _ cause => some cause
  | _ => none

/-- The failure and everything under it, outermost first. -/
def chain : StoreError → List StoreError
  | e@(statement _ cause) => e :: cause.chain
  | e => [e]

/-- Sending the whole statement again is safe and may succeed. -/
def isTransient (e : StoreError) : Bool :=
  match e.root with
  | transient _ => true
  | _ => false

def isNotFound (e : StoreError) : Bool := e.root = notFound

def isMultipleFound (e : StoreError) : Bool := e.root = multipleFound

/-- Several hierarchy roots are one too many, but a hierarchy exists. -/
def impliesExistence (e : StoreError) : Bool := e.isMultipleFound

@[simp] theorem root_withStatement (e : StoreError) (text : String) :
    (e.withStatement text).root = e.root := by
  cases e <;> rfl

@[simp] theorem withStatement_withStatement (e : StoreError) (a b : String) :
    (e.withStatement a).withStatement b = e.withStatement a := by
  cases e <;> rfl

@[simp] theorem isTransient_withStatement (e : StoreError) (text : String) :
    (e.withStatement text).isTransient = e.isTransient := by
  simp [isTransient]

/-- A failure is reported with the statement that ran into it, unless it names one already.  The
cause stays the same. -/
structure ReportedWith (e : StoreError) (text : String) (reported : StoreError) : Prop where
  attached : (∀ text' cause, e ≠ statement text' cause) → reported = statement text e
  kept : ∀ text' cause, e = statement text' cause → reported = e
  root : reported.root = e.root
  isTransient : reported.isTransient = e.isTransient

theorem reportedWith_withStatement (e : StoreError) (text : String) :
    e.ReportedWith text (e.withStatement text) := by
  refine ⟨fun h => ?_, fun text' cause h => ?_, root_withStatement e text,
    isTransient_withStatement e text⟩
  · cases e with
    | statement text' cause => exact absurd rfl (h text' cause)
    | _ => rfl
  · rw [h]
    rfl

end StoreError
end InstanceHierarchy
