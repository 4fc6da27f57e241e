import InstanceHierarchy.Proofs.Execution

/-!
# Stores in trouble

A call of a store in trouble is carried out, or it is refused, or it is cut off: it takes effect and
is answered with an error all the same.  The deadline may pass between any two calls.  What happens
is fixed beforehand, call by call, so a statement about all troubles is one about all ways in which
things can go wrong.
-/

namespace InstanceHierarchy

/-- What becomes of a call. -/
inductive Fate where
  | carriedOut
  /-- It has no effect and is answered with an error. -/
  | refused (e : StoreError)
  /-- It takes effect and is answered with an error. -/
  | cutOff (e : StoreError)

namespace Fate

/-- The error that the call is answered with. -/
def error? : Fate → Option StoreError
  | carriedOut => none
  | refused e => some e
  | cutOff e => some e

end Fate

/-- What becomes of each call, and whether the deadline has passed when so many have been made. -/
structure Trouble where
  fate : Nat → Fate
  late : Nat → Bool

structure TroubledStore where
  graph : Graph
  /-- The calls made and what became of them, oldest first. -/
  record : List (Operation × Fate)

namespace Trouble

/-- Make the next call. -/
def call (t : Trouble) (m : Method) (st : Statement) (s : TroubledStore) :
    Result m × TroubledStore :=
  let fate := t.fate s.record.length
  let record := s.record ++ [(st.operation, fate)]
  match fate with
  | .carriedOut => ((s.graph.call m st).1, ⟨(s.graph.call m st).2, record⟩)
  | .refused e => (.error e, ⟨s.graph, record⟩)
  | .cutOff e => (.error e, ⟨(s.graph.call m st).2, record⟩)

def environment (t : Trouble) : Environment TroubledStore where
  call := t.call
  expired s := t.late s.record.length
  pause _ s := s

/-- How a call can end. -/
inductive Called (t : Trouble) (m : Method) (st : Statement) (s : TroubledStore) :
    Result m × TroubledStore → Prop where
  | carriedOut (h : t.fate s.record.length = .carriedOut) :
      Called t m st s ((s.graph.call m st).1,
        ⟨(s.graph.call m st).2, s.record ++ [(st.operation, .carriedOut)]⟩)
  | refused (e : StoreError) (h : t.fate s.record.length = .refused e) :
      Called t m st s (.error e, ⟨s.graph, s.record ++ [(st.operation, .refused e)]⟩)
  | cutOff (e : StoreError) (h : t.fate s.record.length = .cutOff e) :
      Called t m st s
        (.error e, ⟨(s.graph.call m st).2, s.record ++ [(st.operation, .cutOff e)]⟩)

theorem called (t : Trouble) (m : Method) (st : Statement) (s : TroubledStore) :
    Called t m st s (t.environment.call m st s) := by
  show Called t m st s (t.call m st s)
  unfold call
  cases h : t.fate s.record.length with
  | carriedOut => exact .carriedOut h
  | refused e => exact .refused e h
  | cutOff e => exact .cutOff e h

end Trouble
end InstanceHierarchy
