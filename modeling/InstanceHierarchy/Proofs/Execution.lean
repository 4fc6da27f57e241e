import InstanceHierarchy.Store.Program
import Mathlib.Logic.Relation
import Mathlib.Order.GameAdd

/-!
# Executions

A program is carried out move by move, and every call of the store takes effect at one move.  The
workers of a pool take its statements in their order, but the calls take effect in any order that
the number of workers allows, and they may end in any order.  Two programs on one store move in
turns, in any order.  Running a program on one thread is one of its executions.
-/

namespace InstanceHierarchy

open Relation

/-- Every execution from a state on ends, and in a state with a property. -/
inductive Inevitable (move : γ → γ → Prop) (goal : γ → Prop) : γ → Prop where
  | reached {c : γ} (h : goal c) : Inevitable move goal c
  | ahead {c c' : γ} (h : move c c') (all : ∀ c', move c c' → Inevitable move goal c') :
      Inevitable move goal c

/-- An execution that has come to its end has the property. -/
theorem Inevitable.of_ended {move : γ → γ → Prop} {goal : γ → Prop} {c : γ}
    (h : Inevitable move goal c) (hend : ∀ c', ¬ move c c') : goal c := by
  cases h with
  | reached h => exact h
  | ahead h _ => exact absurd h (hend _)

/-- Whatever is reached by moves has still a way to the property, unless moves lead on from where
the property holds. -/
theorem Inevitable.along {move : γ → γ → Prop} {goal : γ → Prop} {c c' : γ}
    (hend : ∀ c, goal c → ∀ c', ¬ move c c') (h : Inevitable move goal c)
    (hmoves : ReflTransGen move c c') : Inevitable move goal c' := by
  induction hmoves with
  | refl => exact h
  | tail _ hmove ih =>
      cases ih with
      | reached hgoal => exact absurd hmove (hend _ hgoal _)
      | ahead _ all => exact all _ hmove

theorem Inevitable.imp {move : γ → γ → Prop} {goal goal' : γ → Prop} (h : ∀ c, goal c → goal' c)
    {c : γ} (hc : Inevitable move goal c) : Inevitable move goal' c := by
  induction hc with
  | reached hgoal => exact .reached (h _ hgoal)
  | ahead hmove _ ih => exact .ahead hmove ih

/-- The value of a program that has come to it. -/
def Program.value? : Program α → Option α
  | .pure a => some a
  | _ => none

theorem Program.value?_eq_some {p : Program α} {a : α} : p.value? = some a ↔ p = .pure a := by
  cases p <;> simp [value?]

namespace Environment

variable {σ : Type} {α β : Type}

/-- One move of a program in a state of its store. -/
inductive Move (env : Environment σ) : Program α → σ → Program α → σ → Prop where
  | call {m : Method} {st : Statement} {next : Result m → Program α} {s : σ} :
      Move env (.call m st next) s (next (env.call m st s).1) (env.call m st s).2
  /-- The call of a statement in work takes effect; its place among the ends is open. -/
  | work {m : Method} {workers : Nat} {statements : List Statement}
      {next : List (Completion m) → Program α} {s : σ} (i : Nat) (hi : i < statements.length)
      (free : i = 0 ∨ i < workers) (intime : env.expired s = false) (place : Nat) :
      Move env (.pool m workers statements next) s
        (.pool m workers (statements.eraseIdx i) fun ends => next (ends.take place ++
          ⟨statements[i], some (env.call m statements[i] s).1⟩ :: ends.drop place))
        (env.call m statements[i] s).2
  /-- A statement is skipped, for the deadline has passed. -/
  | skip {m : Method} {workers : Nat} {statements : List Statement}
      {next : List (Completion m) → Program α} {s : σ} (i : Nat) (hi : i < statements.length)
      (free : i = 0 ∨ i < workers) (late : env.expired s = true) (place : Nat) :
      Move env (.pool m workers statements next) s
        (.pool m workers (statements.eraseIdx i) fun ends => next (ends.take place ++
          ⟨statements[i], none⟩ :: ends.drop place)) s
  | close {m : Method} {workers : Nat} {next : List (Completion m) → Program α} {s : σ} :
      Move env (.pool m workers [] next) s (next []) s
  | look {next : Bool → Program α} {s : σ} :
      Move env (.expired next) s (next (env.expired s)) s
  | pause {ms : Nat} {next : Program α} {s : σ} :
      Move env (.pause ms next) s next (env.pause ms s)

variable (env : Environment σ)

/-- One move of one program alone. -/
def Solo (c c' : Program α × σ) : Prop := env.Move c.1 c.2 c'.1 c'.2

variable {env} in
theorem Move.solo {p p' : Program α} {s s' : σ} (h : env.Move p s p' s') :
    env.Solo (p, s) (p', s') := h

/-- One move of one of two programs on one store. -/
inductive Duet : Program α × Program β × σ → Program α × Program β × σ → Prop where
  | first {p p' : Program α} {s s' : σ} (q : Program β) (h : env.Move p s p' s') :
      Duet (p, q, s) (p', q, s')
  | second {q q' : Program β} {s s' : σ} (p : Program α) (h : env.Move q s q' s') :
      Duet (p, q, s) (p, q', s')

/-- Every execution of a program from a state ends, with a value and a state as wanted. -/
def Yields (p : Program α) (s : σ) (post : α → σ → Prop) : Prop :=
  Inevitable env.Solo (fun c => ∃ a, c.1 = .pure a ∧ post a c.2) (p, s)

/-- However the moves of two programs on one store alternate, both end, with values and a state as
wanted. -/
def YieldBoth (p : Program α) (q : Program β) (s : σ) (post : α → β → σ → Prop) : Prop :=
  Inevitable env.Duet
    (fun c => ∃ a b, c.1 = .pure a ∧ c.2.1 = .pure b ∧ post a b c.2.2) (p, q, s)

variable {env}

theorem Yields.imp {p : Program α} {s : σ} {post post' : α → σ → Prop}
    (himp : ∀ a s, post a s → post' a s) (h : env.Yields p s post) : env.Yields p s post' :=
  Inevitable.imp (fun _ ⟨a, ha, hpost⟩ => ⟨a, ha, himp a _ hpost⟩) h

theorem YieldBoth.imp {p : Program α} {q : Program β} {s : σ} {post post' : α → β → σ → Prop}
    (himp : ∀ a b s, post a b s → post' a b s) (h : env.YieldBoth p q s post) :
    env.YieldBoth p q s post' :=
  Inevitable.imp (fun _ ⟨a, b, ha, hb, hpost⟩ => ⟨a, b, ha, hb, himp a b _ hpost⟩) h

theorem yields_pure {a : α} {s : σ} {post : α → σ → Prop} (h : post a s) :
    env.Yields (.pure a) s post := .reached ⟨a, rfl, h⟩

theorem yields_call {m : Method} {st : Statement} {next : Result m → Program α} {s : σ}
    {post : α → σ → Prop}
    (h : env.Yields (next (env.call m st s).1) (env.call m st s).2 post) :
    env.Yields (.call m st next) s post := by
  refine .ahead Move.call.solo ?_
  rintro ⟨p, s'⟩ hmove
  cases hmove
  exact h

theorem yields_look {next : Bool → Program α} {s : σ} {post : α → σ → Prop}
    (h : env.Yields (next (env.expired s)) s post) :
    env.Yields (.expired next) s post := by
  refine .ahead Move.look.solo ?_
  rintro ⟨p, s'⟩ hmove
  cases hmove
  exact h

/-! ## Executions end -/

/-- One program is what is left of another one after a move. -/
def Left (env : Environment σ) (p' p : Program α) : Prop := ∃ s s', env.Move p s p' s'

theorem acc_pool {m : Method} {workers : Nat} (statements : List Statement)
    {next : List (Completion m) → Program α} (h : ∀ ends, Acc (Left env) (next ends)) :
    Acc (Left env) (.pool m workers statements next) := by
  -- every call that ends leaves one statement less
  generalize hn : statements.length = n
  induction n generalizing statements next with
  | zero =>
      constructor
      rintro p' ⟨s, s', hmove⟩
      cases hmove with
      | work i hi => omega
      | skip i hi => omega
      | close => exact h []
  | succ n ih =>
      constructor
      rintro p' ⟨s, s', hmove⟩
      cases hmove with
      | work i hi =>
          refine ih _ (fun ends => h _) ?_
          rw [List.length_eraseIdx_of_lt hi]
          omega
      | skip i hi =>
          refine ih _ (fun ends => h _) ?_
          rw [List.length_eraseIdx_of_lt hi]
          omega
      | close => exact h []

/-- No program goes on for ever. -/
theorem acc_left (env : Environment σ) (p : Program α) : Acc (Left env) p := by
  induction p with
  | pure a =>
      constructor
      rintro p' ⟨s, s', hmove⟩
      cases hmove
  | call m st next ih =>
      constructor
      rintro p' ⟨s, s', hmove⟩
      cases hmove with
      | call => exact ih _
  | pool m workers statements next ih => exact acc_pool statements ih
  | expired next ih =>
      constructor
      rintro p' ⟨s, s', hmove⟩
      cases hmove with
      | look => exact ih _
  | pause ms next ih =>
      constructor
      rintro p' ⟨s, s', hmove⟩
      cases hmove with
      | pause => exact ih

section Statements

variable {m : Method} {workers : Nat} {s : σ} (before after : List Statement) (st : Statement)
  (next : List (Completion m) → Program α)

theorem eraseIdx_middle : (before ++ st :: after).eraseIdx before.length = before ++ after := by
  rw [List.eraseIdx_append_of_length_le (Nat.le_refl _), Nat.sub_self]
  rfl

/-- A statement with few enough others before it can be worked on. -/
theorem Move.work_at (free : before.length = 0 ∨ before.length < workers)
    (intime : env.expired s = false) (place : Nat) :
    env.Move (.pool m workers (before ++ st :: after) next) s
      (.pool m workers (before ++ after) fun ends => next (ends.take place ++
        ⟨st, some (env.call m st s).1⟩ :: ends.drop place))
      (env.call m st s).2 := by
  have hi : before.length < (before ++ st :: after).length := by simp
  have hst : (before ++ st :: after)[before.length] = st := by simp
  have hmove : env.Move (.pool m workers (before ++ st :: after) next) s _ _ :=
    .work before.length hi free intime place
  rw [hst, eraseIdx_middle] at hmove
  exact hmove

/-- It can be skipped as well. -/
theorem Move.skip_at (free : before.length = 0 ∨ before.length < workers)
    (late : env.expired s = true) (place : Nat) :
    env.Move (.pool m workers (before ++ st :: after) next) s
      (.pool m workers (before ++ after) fun ends => next (ends.take place ++
        ⟨st, none⟩ :: ends.drop place)) s := by
  have hi : before.length < (before ++ st :: after).length := by simp
  have hst : (before ++ st :: after)[before.length] = st := by simp
  have hmove : env.Move (.pool m workers (before ++ st :: after) next) s _ _ :=
    .skip before.length hi free late place
  rw [hst, eraseIdx_middle] at hmove
  exact hmove

end Statements

/-- The first statement of a pool can always be worked on, and be the first to end. -/
theorem Move.work_first (m : Method) (workers : Nat) (st : Statement) (rest : List Statement)
    (next : List (Completion m) → Program α) {s : σ} (h : env.expired s = false) :
    env.Move (.pool m workers (st :: rest) next) s
      (.pool m workers rest fun ends => next (⟨st, some (env.call m st s).1⟩ :: ends))
      (env.call m st s).2 :=
  .work_at [] rest st next (Or.inl rfl) h 0

theorem Move.skip_first (m : Method) (workers : Nat) (st : Statement) (rest : List Statement)
    (next : List (Completion m) → Program α) {s : σ} (h : env.expired s = true) :
    env.Move (.pool m workers (st :: rest) next) s
      (.pool m workers rest fun ends => next (⟨st, none⟩ :: ends)) s :=
  .skip_at [] rest st next (Or.inl rfl) h 0

/-- A program that has not come to its value can move. -/
theorem exists_move (env : Environment σ) (p : Program α) (s : σ) :
    (∃ a, p = .pure a) ∨ ∃ p' s', env.Move p s p' s' := by
  cases p with
  | pure a => exact Or.inl ⟨a, rfl⟩
  | call m st next => exact Or.inr ⟨_, _, .call⟩
  | pool m workers statements next =>
      cases statements with
      | nil => exact Or.inr ⟨_, _, .close⟩
      | cons st rest =>
          -- in time or late, the first statement can be the next one to end
          cases hexp : env.expired s with
          | false =>
              have hmove := Move.work_first m workers st rest next hexp
              exact Or.inr ⟨_, _, hmove⟩
          | true =>
              have hmove := Move.skip_first m workers st rest next hexp
              exact Or.inr ⟨_, _, hmove⟩
  | expired next => exact Or.inr ⟨_, _, .look⟩
  | pause ms next => exact Or.inr ⟨_, _, .pause⟩

theorem not_move_pure {a : α} {s s' : σ} {p' : Program α} : ¬ env.Move (.pure a) s p' s' := by
  intro h
  cases h

theorem not_duet_pure {a : α} {b : β} {s : σ} {c : Program α × Program β × σ} :
    ¬ env.Duet (.pure a, .pure b, s) c := by
  intro h
  cases h with
  | first _ hmove => exact not_move_pure hmove
  | second _ hmove => exact not_move_pure hmove

/-- Every execution ends, with a value that it has come to by moves. -/
theorem yields_reached (env : Environment σ) (p : Program α) (s : σ) :
    env.Yields p s fun a s' => ReflTransGen env.Solo (p, s) (.pure a, s') := by
  have hacc := acc_left env p
  induction hacc generalizing s with
  | intro p _ ih =>
      rcases exists_move env p s with ⟨a, rfl⟩ | ⟨p', s', hmove⟩
      · exact .reached ⟨a, rfl, .refl⟩
      · refine .ahead hmove.solo ?_
        rintro ⟨q, t⟩ hq
        have hrest : env.Yields q t fun a s' => ReflTransGen env.Solo (p, s) (.pure a, s') :=
          (ih q ⟨s, t, hq⟩ t).imp fun a s' hmoves => .head hq hmoves
        exact hrest

/-! ## Running on one thread -/

theorem solo_callAll (m : Method) (workers : Nat) (statements : List Statement)
    (next : List (Completion m) → Program α) (s : σ) :
    ReflTransGen env.Solo (.pool m workers statements next, s)
      (next (env.callAll m statements s).1, (env.callAll m statements s).2) := by
  induction statements generalizing next s with
  | nil => exact .single Move.close.solo
  | cons st rest ih =>
      unfold callAll
      cases hexp : env.expired s with
      | true =>
          rw [if_pos rfl]
          exact .head (Move.skip_first m workers st rest next hexp).solo
            (ih (fun ends => next (⟨st, none⟩ :: ends)) s)
      | false =>
          rw [if_neg Bool.false_ne_true]
          exact .head (Move.work_first m workers st rest next hexp).solo
            (ih (fun ends => next (⟨st, some (env.call m st s).1⟩ :: ends)) (env.call m st s).2)

/-- The run on one thread is one of the executions. -/
theorem solo_run (p : Program α) (s : σ) :
    ReflTransGen env.Solo (p, s) (.pure (env.run p s).1, (env.run p s).2) := by
  induction p generalizing s with
  | pure a => exact .refl
  | call m st next ih => exact .head Move.call.solo (ih _ _)
  | pool m workers statements next ih =>
      exact (solo_callAll m workers statements next s).trans (ih _ _)
  | expired next ih => exact .head Move.look.solo (ih _ _)
  | pause ms next ih => exact .head Move.pause.solo (ih _)

/-- What all executions yield, each of them yields. -/
theorem Yields.at_end {p : Program α} {s s' : σ} {a : α} {post : α → σ → Prop}
    (h : env.Yields p s post) (hmoves : ReflTransGen env.Solo (p, s) (.pure a, s')) :
    post a s' := by
  have hgoal := (Inevitable.along ?_ h hmoves).of_ended fun c' => not_move_pure
  · obtain ⟨a, ha, hpost⟩ := hgoal
    cases ha
    exact hpost
  · rintro ⟨q, s⟩ ⟨a, rfl, -⟩ c'
    exact not_move_pure

/-- What all executions yield, the run on one thread yields. -/
theorem Yields.run {p : Program α} {s : σ} {post : α → σ → Prop} (h : env.Yields p s post) :
    post (env.run p s).1 (env.run p s).2 := h.at_end (solo_run p s)

/-! ## Executions in parts -/

/-- A move of a program that is followed by another one is a move of its own, unless it has come to
its value. -/
theorem Move.of_bind {p : Program α} {f : α → Program β} {q : Program β} {s s' : σ}
    (h : env.Move (p.bind f) s q s') :
    (∃ a, p = .pure a) ∨ ∃ p', q = p'.bind f ∧ env.Move p s p' s' := by
  cases p with
  | pure a => exact Or.inl ⟨a, rfl⟩
  | call m st next =>
      cases h
      exact Or.inr ⟨_, rfl, .call⟩
  | pool m workers statements next =>
      cases h with
      | work i hi free intime place => exact Or.inr ⟨_, rfl, .work i hi free intime place⟩
      | skip i hi free late place => exact Or.inr ⟨_, rfl, .skip i hi free late place⟩
      | close => exact Or.inr ⟨_, rfl, .close⟩
  | expired next =>
      cases h
      exact Or.inr ⟨_, rfl, .look⟩
  | pause ms next =>
      cases h
      exact Or.inr ⟨_, rfl, .pause⟩

/-- An execution of two programs, one after the other, is one of the first and then one of the
second. -/
theorem reached_of_bind {p : Program α} {f : α → Program β} {b : β} {s s' : σ}
    (h : ReflTransGen env.Solo (p.bind f, s) (.pure b, s')) :
    ∃ a t, ReflTransGen env.Solo (p, s) (.pure a, t) ∧
      ReflTransGen env.Solo (f a, t) (.pure b, s') := by
  generalize hc : (p.bind f, s) = c at h
  induction h using ReflTransGen.head_induction_on generalizing p s with
  | refl =>
      cases p with
      | pure a =>
          obtain ⟨hf, rfl⟩ := Prod.mk.inj hc
          refine ⟨a, s, .refl, ?_⟩
          rw [show f a = .pure b from hf]
      | _ => cases hc
  | @head c c' hmove hrest ih =>
      subst hc
      rcases Move.of_bind hmove with ⟨a, rfl⟩ | ⟨p', hp', hfirst⟩
      · exact ⟨a, s, .refl, .head hmove hrest⟩
      · obtain ⟨a, t, hp, hf⟩ := ih (p := p') (s := c'.2) (Prod.ext hp'.symm rfl)
        exact ⟨a, t, .head hfirst.solo hp, hf⟩

/-- A program that has come to its value stays there. -/
theorem eq_of_pure_reached {a : α} {s : σ} {c : Program α × σ}
    (h : ReflTransGen env.Solo (.pure a, s) c) : c = (.pure a, s) := by
  rcases h.cases_head with heq | ⟨c', hmove, -⟩
  · exact heq.symm
  · exact absurd hmove not_move_pure

/-- The ends of calls that have been made stand among the ends of a pool. -/
theorem pool_order {m : Method} {workers : Nat} {statements : List Statement}
    {made ends : List (Completion m)} {next : List (Completion m) → Program (List (Completion m))}
    {s s' : σ} (hnext : ∀ rest, ∃ all, next rest = .pure all ∧ all.Perm (made ++ rest))
    (h : ReflTransGen env.Solo (.pool m workers statements next, s) (.pure ends, s')) :
    ∃ order, order.Perm statements ∧ ends.Perm (made ++ (env.callAll m order s).1) ∧
      s' = (env.callAll m order s).2 := by
  -- every call that is made leaves one statement less
  induction hn : statements.length using Nat.strongRecOn generalizing statements made next s with
  | _ n ih =>
      rcases h.cases_head with heq | ⟨c, hmove, hrest⟩
      · cases heq
      obtain ⟨p, t⟩ := c
      have hmove : env.Move (.pool m workers statements next) s p t := hmove
      -- one more end stands in front, wherever it was put among the others
      have hput : ∀ (c : Completion m) (place : Nat) (rest : List (Completion m)),
          ∃ all, next (rest.take place ++ c :: rest.drop place) = .pure all ∧
            all.Perm ((made ++ [c]) ++ rest) := by
        intro c place rest
        obtain ⟨all, hall, hperm⟩ := hnext (rest.take place ++ c :: rest.drop place)
        refine ⟨all, hall, hperm.trans ?_⟩
        rw [List.append_assoc, List.singleton_append]
        refine List.Perm.append_left made (List.perm_middle.trans ?_)
        rw [List.take_append_drop]
      cases hmove with
      | work i hi _ intime place =>
          have hless : (statements.eraseIdx i).length < n := by
            rw [List.length_eraseIdx_of_lt hi]
            omega
          obtain ⟨order, horder, hends, hs⟩ := ih _ hless (hput _ place) hrest rfl
          refine ⟨statements[i] :: order,
            (horder.cons _).trans (List.getElem_cons_eraseIdx_perm hi), ?_, ?_⟩
          · rw [callAll, intime, if_neg Bool.false_ne_true]
            rw [List.append_assoc] at hends
            exact hends
          · rw [callAll, intime, if_neg Bool.false_ne_true]
            exact hs
      | skip i hi _ late place =>
          have hless : (statements.eraseIdx i).length < n := by
            rw [List.length_eraseIdx_of_lt hi]
            omega
          obtain ⟨order, horder, hends, hs⟩ := ih _ hless (hput _ place) hrest rfl
          refine ⟨statements[i] :: order,
            (horder.cons _).trans (List.getElem_cons_eraseIdx_perm hi), ?_, ?_⟩
          · rw [callAll, late, if_pos rfl]
            rw [List.append_assoc] at hends
            exact hends
          · rw [callAll, late, if_pos rfl]
            exact hs
      | close =>
          obtain ⟨all, hall, hperm⟩ := hnext []
          rw [hall] at hrest
          cases eq_of_pure_reached hrest
          exact ⟨[], .nil, hperm, rfl⟩

/-- Whatever a pool comes to, it comes to by calls one after another in some order, and they may
have ended in any other order. -/
theorem pool_reached {m : Method} {workers : Nat} {statements : List Statement}
    {ends : List (Completion m)} {s s' : σ}
    (h : ReflTransGen env.Solo (.pool m workers statements .pure, s) (.pure ends, s')) :
    ∃ order, order.Perm statements ∧ ends.Perm (env.callAll m order s).1 ∧
      s' = (env.callAll m order s).2 := by
  have hnone : ∀ rest : List (Completion m), ∃ all, Program.pure rest = .pure all ∧
      all.Perm ([] ++ rest) := fun rest => ⟨rest, rfl, .refl rest⟩
  exact pool_order hnone h

/-! ## Taking turns -/

/-- The move that a program makes when nothing is to be chosen: the first statement of a pool is
worked on, and it is the first to end.  A program that has come to its value stays where it is. -/
def advance (env : Environment σ) : Program α → σ → Program α × σ
  | .pure a, s => (.pure a, s)
  | .call m st next, s => (next (env.call m st s).1, (env.call m st s).2)
  | .pool _ _ [] next, s => (next [], s)
  | .pool m workers (st :: rest) next, s =>
      if env.expired s then
        (.pool m workers rest fun ends => next (⟨st, none⟩ :: ends), s)
      else
        (.pool m workers rest fun ends => next (⟨st, some (env.call m st s).1⟩ :: ends),
          (env.call m st s).2)
  | .expired next, s => (next (env.expired s), s)
  | .pause ms next, s => (next, env.pause ms s)

/-- Two programs on one store make moves in turns; `true` is a turn of the first one. -/
def alternate (env : Environment σ) :
    List Bool → Program α × Program β × σ → Program α × Program β × σ
  | [], c => c
  | true :: turns, (p, q, s) =>
      env.alternate turns ((env.advance p s).1, q, (env.advance p s).2)
  | false :: turns, (p, q, s) =>
      env.alternate turns (p, (env.advance q s).1, (env.advance q s).2)

theorem solo_advance (p : Program α) (s : σ) :
    ReflTransGen env.Solo (p, s) (env.advance p s) := by
  cases p with
  | pure a => exact .refl
  | call m st next => exact .single Move.call.solo
  | pool m workers statements next =>
      cases statements with
      | nil => exact .single Move.close.solo
      | cons st rest =>
          rw [advance]
          cases hexp : env.expired s with
          | true =>
              rw [if_pos rfl]
              exact .single (Move.skip_first m workers st rest next hexp).solo
          | false =>
              rw [if_neg Bool.false_ne_true]
              exact .single (Move.work_first m workers st rest next hexp).solo
  | expired next => exact .single Move.look.solo
  | pause ms next => exact .single Move.pause.solo

/-- What turns lead to, some execution of both programs leads to. -/
theorem duet_alternate (turns : List Bool) (c : Program α × Program β × σ) :
    ReflTransGen env.Duet c (env.alternate turns c) := by
  induction turns generalizing c with
  | nil => exact .refl
  | cons turn rest ih =>
      obtain ⟨p, q, s⟩ := c
      cases turn with
      | true =>
          have hmoves : ReflTransGen env.Duet (p, q, s)
              ((env.advance p s).1, q, (env.advance p s).2) :=
            (solo_advance p s).lift (fun c : Program α × σ => (c.1, q, c.2))
              fun _ _ hmove => .first q hmove
          exact hmoves.trans (ih _)
      | false =>
          have hmoves : ReflTransGen env.Duet (p, q, s)
              (p, (env.advance q s).1, (env.advance q s).2) :=
            (solo_advance q s).lift (fun c : Program β × σ => (p, c.1, c.2))
              fun _ _ hmove => .second p hmove
          exact hmoves.trans (ih _)

/-- What all executions of two programs yield, they yield when they take turns until both end. -/
theorem YieldBoth.alternate {p : Program α} {q : Program β} {s : σ} {post : α → β → σ → Prop}
    (h : env.YieldBoth p q s post) (turns : List Bool)
    (hp : (env.alternate turns (p, q, s)).1.value?.isSome)
    (hq : (env.alternate turns (p, q, s)).2.1.value?.isSome) :
    ∃ a b, post a b (env.alternate turns (p, q, s)).2.2 := by
  have hmoves := @duet_alternate σ α β env turns (p, q, s)
  generalize env.alternate turns (p, q, s) = c at hp hq hmoves
  obtain ⟨p', q', s'⟩ := c
  obtain ⟨a, ha⟩ := Option.isSome_iff_exists.1 hp
  obtain ⟨b, hb⟩ := Option.isSome_iff_exists.1 hq
  obtain rfl := Program.value?_eq_some.1 ha
  obtain rfl := Program.value?_eq_some.1 hb
  -- both have come to their values, so this is an execution that has ended
  have hgoal := (Inevitable.along ?_ h hmoves).of_ended ?_
  · obtain ⟨a, b, -, -, hpost⟩ := hgoal
    exact ⟨a, b, hpost⟩
  · rintro ⟨p, q, s⟩ ⟨a, b, rfl, rfl, -⟩ c
    exact not_duet_pure
  · exact fun c => not_duet_pure

end Environment
end InstanceHierarchy
