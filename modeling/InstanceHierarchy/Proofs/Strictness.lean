import InstanceHierarchy.Proofs.Assurance
import InstanceHierarchy.Proofs.TroubledStores

/-!
# Programs that hide no failure

A strict program lets no failure of a call pass: once a call has failed, or has been left out
because of the deadline, all that the program can come to is an error.  So a strict program that
comes to a value with a store in trouble has met no trouble, and it has done what it does with the
graph alone.
Nothing is repeated in such a program; programs that repeat calls are not strict.
-/

namespace InstanceHierarchy

open Relation Environment

namespace Program

variable {α β : Type}

/-- Whatever happens, the program comes to an error. -/
def Doomed : Program (Except StoreError α) → Prop
  | .pure a => ∃ e, a = .error e
  | .call _ _ next => ∀ r, Doomed (next r)
  | .pool _ _ _ next => ∀ ends, Doomed (next ends)
  | .expired next => ∀ late, Doomed (next late)
  | .pause _ next => Doomed next

/-- The call has failed or has been left out. -/
def Lost {m : Method} (c : Completion m) : Prop := ∀ reply, c.result ≠ some (.ok reply)

theorem lost_skipped {m : Method} (st : Statement) : Lost (m := m) ⟨st, none⟩ := by
  intro reply h
  cases h

theorem lost_failed {m : Method} (st : Statement) (e : StoreError) :
    Lost (m := m) ⟨st, some (.error e)⟩ := by
  intro reply h
  cases h

/-- After a call that has failed or has been left out, the program comes to an error. -/
def Strict : Program (Except StoreError α) → Prop
  | .pure _ => True
  | .call _ _ next => (∀ e, Doomed (next (.error e))) ∧ ∀ reply, Strict (next (.ok reply))
  | .pool _ _ _ next => (∀ ends, (∃ c ∈ ends, Lost c) → Doomed (next ends)) ∧
      ∀ ends, Strict (next ends)
  | .expired next => Doomed (next true) ∧ Strict (next false)
  | .pause _ next => Strict next

/-- What is done with the value of a program, when it comes to one. -/
theorem Doomed.bind {p : Program (Except StoreError α)} (h : p.Doomed)
    {f : Except StoreError α → Program (Except StoreError β)} (hf : ∀ e, Doomed (f (.error e))) :
    (p.bind f).Doomed := by
  induction p with
  | pure a =>
      obtain ⟨e, rfl⟩ := h
      exact hf e
  | call m st next ih => exact fun r => ih r (h r)
  | pool m workers statements next ih => exact fun ends => ih ends (h ends)
  | expired next ih => exact fun late => ih late (h late)
  | pause ms next ih => exact ih h

theorem Strict.bind {p : Program (Except StoreError α)} (h : p.Strict)
    {f : Except StoreError α → Program (Except StoreError β)} (hf : ∀ e, Doomed (f (.error e)))
    (hstrict : ∀ r, Strict (f r)) : (p.bind f).Strict := by
  induction p with
  | pure a => exact hstrict a
  | call m st next ih => exact ⟨fun e => (h.1 e).bind hf, fun reply => ih _ (h.2 reply)⟩
  | pool m workers statements next ih =>
      exact ⟨fun ends hlost => (h.1 ends hlost).bind hf, fun ends => ih ends (h.2 ends)⟩
  | expired next ih => exact ⟨h.1.bind hf, ih _ h.2⟩
  | pause ms next ih => exact ih h

/-! ## Executions of strict programs -/

variable {t : Trouble} {p p' : Program (Except StoreError α)} {s s' : TroubledStore}

/-- A doomed program stays doomed. -/
theorem Doomed.move {σ : Type} {env : Environment σ} {s s' : σ} (h : p.Doomed)
    (hmove : env.Move p s p' s') : p'.Doomed := by
  cases hmove with
  | call => exact h _
  | work => exact fun ends => h _
  | skip => exact fun ends => h _
  | close => exact h _
  | look => exact h _
  | pause => exact h

theorem Doomed.not_ok {σ : Type} {env : Environment σ} {c c' : Program (Except StoreError α) × σ}
    (hmoves : ReflTransGen env.Solo c c') (h : c.1.Doomed) (a : α) : c'.1 ≠ .pure (.ok a) := by
  have key : c'.1.Doomed := by
    induction hmoves with
    | refl => exact h
    | tail _ hmove ih => exact ih.move hmove
  intro hok
  rw [hok] at key
  obtain ⟨e, he⟩ := key
  cases he

/-- A move of a strict program meets trouble, and dooms it, or it is a move with the graph alone
that leaves a strict program. -/
theorem Strict.move (h : p.Strict) (hmove : t.environment.Move p s p' s') :
    p'.Doomed ∨ (p'.Strict ∧ Environment.graph.Move p s.graph p' s'.graph) := by
  cases hmove with
  | @call m st next =>
      obtain ⟨hdoomed, hstrict⟩ := h
      generalize heq : t.environment.call m st s = result
      have hcalled := t.called m st s
      rw [heq] at hcalled
      cases hcalled with
      | carriedOut =>
          cases hreply : (s.graph.call m st).1 with
          | error e => exact Or.inl (hdoomed e)
          | ok reply =>
              have hstep : Environment.graph.Move (.call m st next) s.graph _ _ := .call
              exact Or.inr ⟨hstrict reply, hreply ▸ hstep⟩
      | refused e => exact Or.inl (hdoomed e)
      | cutOff e => exact Or.inl (hdoomed e)
  | @work m workers statements next _ i hi free _ place =>
      obtain ⟨hdoomed, hstrict⟩ := h
      generalize heq : t.environment.call m statements[i] s = result
      have hcalled := t.called m statements[i] s
      rw [heq] at hcalled
      have hlost : ∀ (e : StoreError) (ends : List (Completion m)), Doomed (next
          (ends.take place ++ ⟨statements[i], some (.error e)⟩ :: ends.drop place)) :=
        fun e ends => hdoomed _
          ⟨_, List.mem_append_right _ List.mem_cons_self, lost_failed statements[i] e⟩
      cases hcalled with
      | carriedOut =>
          refine Or.inr ⟨⟨fun ends hends => hdoomed _ ?_, fun ends => hstrict _⟩,
            .work i hi free rfl place⟩
          -- an end that was lost stays among the ends
          obtain ⟨c, hc, hlostEnd⟩ := hends
          refine ⟨c, ?_, hlostEnd⟩
          rw [← List.take_append_drop place ends] at hc
          rcases List.mem_append.1 hc with hc | hc
          · exact List.mem_append_left _ hc
          · exact List.mem_append_right _ (List.mem_cons_of_mem _ hc)
      | refused e => exact Or.inl (hlost e)
      | cutOff e => exact Or.inl (hlost e)
  | skip i hi free late place =>
      exact Or.inl fun ends => h.1 _
        ⟨_, List.mem_append_right _ List.mem_cons_self, lost_skipped _⟩
  | close => exact Or.inr ⟨h.2 [], .close⟩
  | @look next =>
      cases hlate : t.environment.expired s with
      | true => exact Or.inl h.1
      | false => exact Or.inr ⟨h.2, .look⟩
  | pause => exact Or.inr ⟨h, .pause⟩

/-- What a strict program comes to with a store in trouble, it can come to with the graph alone. -/
theorem Strict.moves {c c' : Program (Except StoreError α) × TroubledStore}
    (hmoves : ReflTransGen t.environment.Solo c c') (h : c.1.Strict) {a : α}
    (hok : c'.1 = .pure (.ok a)) :
    ReflTransGen Environment.graph.Solo (c.1, c.2.graph) (c'.1, c'.2.graph) := by
  induction hmoves using ReflTransGen.head_induction_on with
  | refl => exact .refl
  | head hmove hrest ih =>
      rcases h.move hmove with hdoomed | ⟨hstrict, hstep⟩
      · exact absurd hok (Doomed.not_ok hrest hdoomed a)
      · exact .head hstep.solo (ih hstrict)

theorem Strict.yields (h : p.Strict) (s : TroubledStore) :
    t.environment.Yields p s fun r s' => ∀ a, r = .ok a →
      ReflTransGen Environment.graph.Solo (p, s.graph) (.pure (.ok a), s'.graph) := by
  refine (yields_reached _ _ _).imp fun r s' hmoves a hok => ?_
  subst hok
  exact Strict.moves hmoves h rfl

/-! ## On one thread -/

/-- Calls made on one thread are lost in part, or they do what they do with the graph alone. -/
theorem callAll_trouble (t : Trouble) (m : Method) (statements : List Statement)
    (s : TroubledStore) :
    (∃ c ∈ (t.environment.callAll m statements s).1, Lost c) ∨
      Environment.graph.callAll m statements s.graph = ((t.environment.callAll m statements s).1,
        (t.environment.callAll m statements s).2.graph) := by
  induction statements generalizing s with
  | nil => exact Or.inr rfl
  | cons st rest ih =>
      unfold callAll
      cases hlate : t.environment.expired s with
      | true =>
          rw [if_pos rfl]
          exact Or.inl ⟨_, List.mem_cons_self, lost_skipped st⟩
      | false =>
          rw [if_neg Bool.false_ne_true]
          generalize heq : t.environment.call m st s = result
          have hcalled := t.called m st s
          rw [heq] at hcalled
          cases hcalled with
          | carriedOut =>
              rcases ih _ with ⟨c, hc, hlost⟩ | hrest
              · exact Or.inl ⟨c, List.mem_cons_of_mem _ hc, hlost⟩
              · refine Or.inr ?_
                show (_ :: (Environment.graph.callAll m rest (s.graph.call m st).2).1,
                  (Environment.graph.callAll m rest (s.graph.call m st).2).2) = _
                rw [hrest]
                rfl
          | refused e => exact Or.inl ⟨_, List.mem_cons_self, lost_failed st e⟩
          | cutOff e => exact Or.inl ⟨_, List.mem_cons_self, lost_failed st e⟩

/-- The value that a strict program comes to on one thread with a store in trouble is the one that
it comes to with the graph alone. -/
theorem Strict.run (h : p.Strict) {a : α} (hok : t.environment.run p s = (.ok a, s')) :
    Environment.graph.run p s.graph = (.ok a, s'.graph) := by
  have hnot : ∀ {q : Program (Except StoreError α)} {s : TroubledStore}, q.Doomed →
      t.environment.run q s ≠ (.ok a, s') := by
    intro q s hq hrun
    have hmoves : ReflTransGen t.environment.Solo (q, s) _ := solo_run q s
    refine Doomed.not_ok hmoves hq a ?_
    rw [hrun]
  induction p generalizing s with
  | pure r => exact Prod.ext (congrArg (·.1) hok) (congrArg (·.2.graph) hok)
  | call m st next ih =>
      obtain ⟨hdoomed, hstrict⟩ := h
      unfold Environment.run at hok ⊢
      generalize heq : t.environment.call m st s = result at hok
      have hcalled := t.called m st s
      rw [heq] at hcalled
      cases hcalled with
      | carriedOut =>
          cases hreply : (s.graph.call m st).1 with
          | error e =>
              rw [hreply] at hok
              exact absurd hok (hnot (hdoomed e))
          | ok reply =>
              rw [hreply] at hok
              show Environment.graph.run (next (s.graph.call m st).1) (s.graph.call m st).2 = _
              rw [hreply]
              exact ih _ (hstrict reply) hok
      | refused e => exact absurd hok (hnot (hdoomed e))
      | cutOff e => exact absurd hok (hnot (hdoomed e))
  | pool m workers statements next ih =>
      obtain ⟨hdoomed, hstrict⟩ := h
      unfold Environment.run at hok ⊢
      rcases callAll_trouble t m statements s with hlost | hsame
      · exact absurd hok (hnot (hdoomed _ hlost))
      · rw [hsame]
        exact ih _ (hstrict _) hok
  | expired next ih =>
      unfold Environment.run at hok ⊢
      cases hlate : t.environment.expired s with
      | true =>
          rw [hlate] at hok
          exact absurd hok (hnot h.1)
      | false =>
          rw [hlate] at hok
          exact ih _ h.2 hok
  | pause ms next ih => exact ih h hok

end Program

/-! ## Strict programs over a store -/

namespace StoreM

variable {α β : Type}

theorem strict_pure (a : α) : (pure a : StoreM α).run.Strict := trivial

theorem strict_bind {p : StoreM α} {f : α → StoreM β} (hp : p.run.Strict)
    (hf : ∀ a, (f a).run.Strict) : (p >>= f).run.Strict := by
  refine Program.Strict.bind hp (fun e => ⟨e, rfl⟩) fun r => ?_
  cases r with
  | ok a => exact hf a
  | error e => exact trivial

theorem strict_call (m : Method) (st : Statement) : (StoreM.call m st).run.Strict :=
  ⟨fun _ => ⟨_, rfl⟩, fun _ => trivial⟩

/-- A chunk that is lost makes the batch fail. -/
theorem strict_callAll (scheduler : BatchScheduler) (m : Method) (statements : List Statement)
    (read : m.Reply → Except StoreError (Table α)) :
    (StoreM.callAll scheduler m statements read).run.Strict := by
  refine ⟨fun ends hends => ?_, fun _ => trivial⟩
  obtain ⟨⟨st, result⟩, hc, hlost⟩ := hends
  refine Achieves.ofEnds_error statements.length ⟨_, hc, fun table => ?_⟩
  unfold Completion.chunkEnd
  rcases result with _ | (e | reply)
  · exact nofun
  · exact nofun
  · exact absurd rfl (hlost reply)

theorem strict_sendAll (scheduler : BatchScheduler) (m : Method) (statements : List Statement) :
    (StoreM.sendAll scheduler m statements).run.Strict :=
  strict_bind (strict_callAll scheduler m statements _) fun _ => strict_pure _

end StoreM
end InstanceHierarchy
