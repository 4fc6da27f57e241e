import InstanceHierarchy.Store.Method

/-!
# Programs over a store

What an adapter does is written as a program: a tree of store calls, pools of calls, looks at the
deadline, and pauses, in which every answer selects how to go on.  A program is run in an
environment, which says what calls answer and when the deadline has passed.  Running it on one
thread carries out the calls of a pool in their order.
-/

namespace InstanceHierarchy

/-- How a call of a pool ended: with a result, or skipped because the deadline had passed. -/
structure Completion (m : Method) where
  statement : Statement
  /-- None for a call that was skipped. -/
  result : Option (Result m)

/-- A program over a store that yields a value. -/
inductive Program (α : Type) where
  | pure (value : α)
  /-- Call the store and go on with the result. -/
  | call (m : Method) (s : Statement) (next : Result m → Program α)
  /-- Make several calls, at most `workers` at a time and none after the deadline, and go on with
  how they ended, in the order in which they ended. -/
  | pool (m : Method) (workers : Nat) (statements : List Statement)
      (next : List (Completion m) → Program α)
  /-- Go on with whether the deadline has passed. -/
  | expired (next : Bool → Program α)
  /-- Wait some milliseconds. -/
  | pause (milliseconds : Nat) (next : Program α)

namespace Program

/-- Go on, after a program, with one that its value selects. -/
def bind : Program α → (α → Program β) → Program β
  | .pure a, f => f a
  | .call m s next, f => .call m s fun r => (next r).bind f
  | .pool m workers statements next, f => .pool m workers statements fun r => (next r).bind f
  | .expired next, f => .expired fun b => (next b).bind f
  | .pause ms next, f => .pause ms (next.bind f)

instance : Monad Program where
  pure := .pure
  bind := .bind

theorem bind_pure (p : Program α) : p.bind .pure = p := by
  induction p with
  | pure a => rfl
  | call m s next ih => simp [bind, ih]
  | pool m w ss next ih => simp [bind, ih]
  | expired next ih => simp [bind, ih]
  | pause ms next ih => simp [bind, ih]

theorem bind_assoc (p : Program α) (f : α → Program β) (g : β → Program γ) :
    (p.bind f).bind g = p.bind fun a => (f a).bind g := by
  induction p with
  | pure a => rfl
  | call m s next ih => simp [bind, ih]
  | pool m w ss next ih => simp [bind, ih]
  | expired next ih => simp [bind, ih]
  | pause ms next ih => simp [bind, ih]

instance : LawfulMonad Program :=
  LawfulMonad.mk' Program bind_pure (fun _ _ => rfl) bind_assoc

end Program

/-- What a program meets: how calls are answered, when the deadline has passed, and the clock. -/
structure Environment (σ : Type) where
  call : (m : Method) → Statement → σ → Result m × σ
  expired : σ → Bool
  pause : Nat → σ → σ

namespace Environment

/-- Make the calls of a pool on one thread, where the next call starts when the one before has
ended. -/
def callAll (env : Environment σ) (m : Method) : List Statement → σ → List (Completion m) × σ
  | [], s => ([], s)
  | st :: rest, s =>
      if env.expired s then
        let (completions, s) := env.callAll m rest s
        (⟨st, none⟩ :: completions, s)
      else
        let (result, s) := env.call m st s
        let (completions, s) := env.callAll m rest s
        (⟨st, some result⟩ :: completions, s)

/-- Run a program on one thread. -/
def run (env : Environment σ) : Program α → σ → α × σ
  | .pure a, s => (a, s)
  | .call m st next, s =>
      let (result, s) := env.call m st s
      env.run (next result) s
  | .pool m _ statements next, s =>
      let (completions, s) := env.callAll m statements s
      env.run (next completions) s
  | .expired next, s => env.run (next (env.expired s)) s
  | .pause ms next, s => env.run next (env.pause ms s)

theorem run_bind (env : Environment σ) (p : Program α) (f : α → Program β) (s : σ) :
    env.run (p.bind f) s = env.run (f (env.run p s).1) (env.run p s).2 := by
  induction p generalizing s with
  | pure a => rfl
  | call m st next ih => simp [Program.bind, run, ih]
  | pool m w ss next ih => simp [Program.bind, run, ih]
  | expired next ih => simp [Program.bind, run, ih]
  | pause ms next ih => simp [Program.bind, run, ih]

/-- The graph in memory, without faults and without a deadline. -/
def graph : Environment Graph where
  call m st g := g.call m st
  expired _ := false
  pause _ g := g

end Environment

/-- Programs that may fail. -/
abbrev StoreM := ExceptT StoreError Program

namespace StoreM

/-- Call the store once; a failure is reported with the statement. -/
def call (m : Method) (s : Statement) : StoreM m.Reply :=
  Program.call m s fun r => .pure (r.mapError (·.withStatement s.text))

end StoreM
end InstanceHierarchy
