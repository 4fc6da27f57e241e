import InstanceHierarchy.Retry.Policy

/-!
# Rehearsing a policy

A policy is rehearsed on a script of answers, one for each attempt and the last one for all further
attempts.  The record of a rehearsal says which attempts were made and how long each pause was.
-/

namespace InstanceHierarchy

/-- What happened in a rehearsal, and whether the deadline has passed. -/
structure RetryRecord where
  expired : Bool
  /-- The numbers of the attempts that were made. -/
  attempts : List Nat
  /-- The lengths of the pauses, in milliseconds. -/
  pauses : List Nat

namespace RetryRecord

instance : Patient (StateM RetryRecord) where
  expired := do return (← get).expired
  pause ms := modify fun r => { r with pauses := r.pauses ++ [ms] }

/-- The answer of a script to an attempt; attempts count from one. -/
def answer (script : List (Except StoreError α)) (attempt : Nat) :
    Option (Except StoreError α) :=
  (script[attempt - 1]?).or script.getLast?

/-- Answer an attempt by a script and note the attempt. -/
def attempt (script : List (Except StoreError α)) (n : Nat) :
    StateM RetryRecord (Except StoreError α) := do
  modify fun r => { r with attempts := r.attempts ++ [n] }
  return (answer script n).getD (.error (.backend "no answer"))

end RetryRecord

/-- Rehearse a policy on a script of answers. -/
def RetryPolicy.rehearse (p : RetryPolicy) (text : String) (expired : Bool)
    (script : List (Except StoreError α)) : Except StoreError α × RetryRecord :=
  (p.run text (RetryRecord.attempt script)).run ⟨expired, [], []⟩

end InstanceHierarchy
