import InstanceHierarchy.MachineNumber
import InstanceHierarchy.Store.Program

/-!
# Repeating statements that fail

A statement that failed is sent again when its failure is of a kind that a policy calls passing and
the policy's number of attempts is not used up.  Between two attempts there is a pause that doubles
each time, up to a limit.  No attempt starts after the deadline.
-/

namespace InstanceHierarchy

structure RetryPolicy where
  maxAttempts : Nat
  /-- The pause after the first attempt, in milliseconds. -/
  backoff : Nat
  /-- The failures after which the statement may be sent again. -/
  isPassing : StoreError → Bool
  maxAttempts_pos : 0 < maxAttempts

/-- What repeating needs: a look at the deadline and a way to wait. -/
class Patient (m : Type → Type) where
  expired : m Bool
  pause : Nat → m Unit

namespace RetryPolicy

/-- The longest pause, in milliseconds. -/
def longestPause : Nat := 5000

/-- The policy with some number of attempts, of which zero counts as one, that repeats after
transient failures. -/
def of (maxAttempts backoff : Nat) : RetryPolicy :=
  ⟨max maxAttempts 1, backoff, StoreError.isTransient, Limit.max_one_pos maxAttempts⟩

/-- Five attempts, and twenty milliseconds to begin with. -/
def standard : RetryPolicy := .of 5 20

/-- One attempt only. -/
def once : RetryPolicy := .of 1 0

/-- Sending again after this failure of this attempt is allowed. -/
def shouldRetry (p : RetryPolicy) (e : StoreError) (attempt : Nat) : Bool :=
  attempt < p.maxAttempts && p.isPassing e

/-- The pause between an attempt and the next, in milliseconds.  It doubles sixteen times at
most. -/
def delayAfter (p : RetryPolicy) (attempt : Nat) : Nat :=
  min (p.backoff * Nat.pow 2 (min (attempt - 1) 16)) longestPause

variable {m : Type → Type} [Monad m] [Patient m]

/-- Attempt an operation from some attempt on. -/
def runFrom (p : RetryPolicy) (text : String) (op : Nat → m (Except StoreError α))
    (attempt : Nat) : m (Except StoreError α) := do
  if ← Patient.expired then
    return .error (StoreError.deadlineExceeded.withStatement text)
  match ← op attempt with
  | .ok a => return .ok a
  | .error e =>
      if _again : p.shouldRetry e attempt then
        let delay := p.delayAfter attempt
        unless delay = 0 do Patient.pause delay
        runFrom p text op (attempt + 1)
      else return .error (e.withStatement text)
  termination_by p.maxAttempts - attempt
  decreasing_by
    simp only [shouldRetry, Bool.and_eq_true, decide_eq_true_eq] at _again
    omega

/-- Attempt an operation, which is told the number of the attempt, until it succeeds, fails for
good or has used up the attempts.  The last failure is reported with the statement. -/
def run (p : RetryPolicy) (text : String) (op : Nat → m (Except StoreError α)) :
    m (Except StoreError α) :=
  p.runFrom text op 1

end RetryPolicy

instance : Patient Program where
  expired := .expired .pure
  pause ms := .pause ms (.pure ())

namespace StoreM

/-- Call the store under a retry policy. -/
def callRetrying (policy : RetryPolicy) (m : Method) (s : Statement) : StoreM m.Reply :=
  policy.run s.text fun _ => (Program.call m s .pure : Program (Result m))

end StoreM
end InstanceHierarchy
