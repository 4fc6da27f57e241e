import InstanceHierarchy.Graph.Basic

/-!
# Call contexts

A call is made in a context: an id by which its log lines are found, and possibly a deadline.  Times
are in milliseconds of one clock.
-/

namespace InstanceHierarchy

/-- A moment from which on no more work is begun; none for no limit. -/
abbrev Deadline := Option Nat

/-- Whether a deadline has passed at some moment.  It has at the deadline itself. -/
def Deadline.isPast (d : Deadline) (now : Nat) : Bool := d.any (· ≤ now)

theorem Deadline.isPast_mono {d : Deadline} {t t' : Nat} (h : t ≤ t') (ht : d.isPast t = true) :
    d.isPast t' = true := by
  cases d with
  | none => exact ht
  | some limit =>
      have hlimit : limit ≤ t := by simpa [isPast] using ht
      simpa [isPast] using Nat.le_trans hlimit h

structure CallContext where
  requestId : String
  deadline : Deadline

namespace CallContext

/-- A context that ends after some time, or never, under the given request id or a new one. -/
def new (supply : IdSupply) (now : Nat) (timeout : Option Nat) (requestId : Option String) :
    CallContext :=
  ⟨requestId.getD supply.draw.1, timeout.map (now + ·)⟩

def isExpired (c : CallContext) (now : Nat) : Bool := c.deadline.isPast now

end CallContext
end InstanceHierarchy
