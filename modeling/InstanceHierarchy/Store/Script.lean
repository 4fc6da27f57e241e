import InstanceHierarchy.Store.Program

/-!
# A store with scripted faults

A scripted store keeps a record of every statement it is sent, answers some calls by a script
instead of carrying them out, and passes the others to a graph in memory.  Its deadline passes while
a chosen call is carried out.
-/

namespace InstanceHierarchy

/-- What a fault answers a call with. -/
inductive FaultAnswer where
  | error (e : StoreError)
  /-- A reply, written as JSON. -/
  | reply (value : Json)

/-- A fault answers the calls that it fits. -/
structure Fault where
  /-- The only method that it fits; none for every method. -/
  method : Option Method
  /-- The name of the only operation that it fits; none for every operation. -/
  operation : Option String
  /-- How many fitting calls it lets pass before it answers one. -/
  skip : Nat
  /-- How many calls it answers; none for no limit. -/
  times : Option Nat
  answer : FaultAnswer

namespace Fault

def fits (f : Fault) (m : Method) (op : Operation) : Bool :=
  f.method.all (· = m) && f.operation.all (· = op.name)

/-- The result that the fault answers a call with. -/
def result (f : Fault) (m : Method) : Result m :=
  match f.answer with
  | .error e => .error e
  | .reply v => (m.ofJson v).mapError fun e => .decode e.message

/-- Look for the first fault that answers a call, and count down the faults that fit it up to
there. -/
def select (m : Method) (op : Operation) : List Fault → Option (Result m) × List Fault
  | [] => (none, [])
  | f :: rest =>
      let goOn (f : Fault) : Option (Result m) × List Fault :=
        let (found, rest) := select m op rest
        (found, f :: rest)
      if f.fits m op then
        if 0 < f.skip then goOn { f with skip := f.skip - 1 }
        else
          match f.times with
          | none => (some (f.result m), f :: rest)
          | some (n + 1) => (some (f.result m), { f with times := some n } :: rest)
          | some 0 => goOn f
      else goOn f

end Fault

/-- A call that a store has received. -/
structure Received where
  method : Method
  statement : Statement

structure ScriptedStore where
  graph : Graph
  faults : List Fault
  /-- The calls received, oldest first. -/
  log : List Received
  /-- How many more calls are received before the deadline has passed; none for no deadline. -/
  callsLeft : Option Nat
  /-- How long was waited, in milliseconds. -/
  waited : Nat

namespace ScriptedStore

/-- A store without faults, calls and deadline. -/
def ofGraph (g : Graph) : ScriptedStore := ⟨g, [], [], none, 0⟩

/-- Receive a call. -/
def call (m : Method) (st : Statement) (s : ScriptedStore) : Result m × ScriptedStore :=
  let (answer, faults) := Fault.select m st.operation s.faults
  let s :=
    { s with
      faults
      log := s.log ++ [⟨m, st⟩]
      callsLeft := s.callsLeft.map (· - 1) }
  match answer with
  | some result => (result, s)
  | none =>
      let (result, graph) := s.graph.call m st
      (result, { s with graph })

def environment : Environment ScriptedStore where
  call := call
  expired s := s.callsLeft = some 0
  pause ms s := { s with waited := s.waited + ms }

end ScriptedStore
end InstanceHierarchy
