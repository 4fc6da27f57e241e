import InstanceHierarchy.Proofs.Execution
import InstanceHierarchy.Retry.Policy
import InstanceHierarchy.Store.Batches
import Mathlib.Data.List.Perm.Basic

/-!
# Assurances

A program that shares its store with others is described by what it lets the others do, what it
does itself, and what it ends with.  The description follows the program: between any two of its
moves the others may act.  Programs are described piece by piece, and two programs that put up with
each other may be carried out together, in any order of their moves.
-/

namespace InstanceHierarchy

open Relation

/-- How a program shares a store. -/
structure Sharing (σ : Type) where
  /-- What the others may do between two moves of the program. -/
  rely : σ → σ → Prop
  /-- What the program may do at one move. -/
  guar : σ → σ → Prop
  rely_refl : ∀ s, rely s s
  rely_trans : ∀ {s s' s''}, rely s s' → rely s' s'' → rely s s''
  guar_refl : ∀ s, guar s s

namespace Sharing

variable {σ : Type}

/-- What the others do keeps a property. -/
def Stable (S : Sharing σ) (P : σ → Prop) : Prop := ∀ s s', P s → S.rely s s' → P s'

/-- A program has the store to itself, and it keeps a property of it. -/
def alone (keeps : σ → Prop) : Sharing σ where
  rely s s' := s' = s
  guar s s' := keeps s → keeps s'
  rely_refl _ := rfl
  rely_trans h h' := h'.trans h
  guar_refl _ := id

theorem stable_alone (keeps P : σ → Prop) : (alone keeps).Stable P := by
  rintro s _ hs rfl
  exact hs

theorem Stable.given {S : Sharing σ} {P : σ → Prop} (h : S.Stable P) (fact : Prop) :
    S.Stable fun s => fact ∧ P s := fun s s' hs hrely => ⟨hs.1, h s s' hs.2 hrely⟩

end Sharing

namespace Environment

variable {σ : Type} {α β : Type} {env : Environment σ} {S T : Sharing σ}

/-- A property of a pool's statements that are left, the ends so far and the store: it survives what
the others do and every call of the pool. -/
structure PoolInvariant (env : Environment σ) (S : Sharing σ) (m : Method)
    (J : List Statement → List (Completion m) → σ → Prop) : Prop where
  stable : ∀ rest ends, S.Stable (J rest ends)
  work : ∀ rest ends s, J rest ends s → env.expired s = false → ∀ i (hi : i < rest.length),
    S.guar s (env.call m rest[i] s).2 ∧
      J (rest.eraseIdx i) (ends ++ [⟨rest[i], some (env.call m rest[i] s).1⟩])
        (env.call m rest[i] s).2
  skip : ∀ rest ends s, J rest ends s → env.expired s = true → ∀ i (hi : i < rest.length),
    J (rest.eraseIdx i) (ends ++ [⟨rest[i], none⟩]) s

/-- From a state on, whatever the others do as far as they may, the program does no more than it
may, and it ends with a value and a state as wanted. -/
def Assures (env : Environment σ) (S : Sharing σ) (post : α → σ → Prop) : Program α → σ → Prop
  | .pure a, s => ∀ s', S.rely s s' → post a s'
  | .call m st next, s => ∀ s', S.rely s s' →
      S.guar s' (env.call m st s').2 ∧
        Assures env S post (next (env.call m st s').1) (env.call m st s').2
  | .pool m _ statements next, s => ∃ J, PoolInvariant env S m J ∧ J statements [] s ∧
      ∀ ends s', J [] ends s' → ∀ ends', ends'.Perm ends → Assures env S post (next ends') s'
  | .expired next, s => ∀ s', S.rely s s' → Assures env S post (next (env.expired s')) s'
  | .pause ms next, s => ∀ s', S.rely s s' →
      S.guar s' (env.pause ms s') ∧ Assures env S post next (env.pause ms s')

namespace Assures

/-- What the others do leaves an assurance standing. -/
theorem others {post : α → σ → Prop} {p : Program α} {s s' : σ} (h : Assures env S post p s)
    (hrely : S.rely s s') : Assures env S post p s' := by
  cases p with
  | pure a => exact fun s'' h' => h s'' (S.rely_trans hrely h')
  | call m st next => exact fun s'' h' => h s'' (S.rely_trans hrely h')
  | pool m workers statements next =>
      obtain ⟨J, hJ, hstart, hend⟩ := h
      exact ⟨J, hJ, hJ.stable _ _ _ _ hstart hrely, hend⟩
  | expired next => exact fun s'' h' => h s'' (S.rely_trans hrely h')
  | pause ms next => exact fun s'' h' => h s'' (S.rely_trans hrely h')

theorem perm_insert {a : γ} (place : Nat) {xs ys : List γ} (h : xs.Perm ys) :
    (xs.take place ++ a :: xs.drop place).Perm (a :: ys) := by
  refine List.perm_middle.trans (List.Perm.cons a ?_)
  rw [List.take_append_drop]
  exact h

/-- A pool that has had one of its ends is a pool of the other statements. -/
theorem pool_after {post : α → σ → Prop} {m : Method} {workers : Nat} {rest : List Statement}
    {next : List (Completion m) → Program α} {s : σ}
    {J : List Statement → List (Completion m) → σ → Prop} (hJ : PoolInvariant env S m J)
    {e : Completion m} (place : Nat) (hstart : J rest [e] s)
    (hend : ∀ ends s', J [] ends s' → ∀ ends', ends'.Perm ends →
      Assures env S post (next ends') s') :
    Assures env S post (.pool m workers rest fun ends =>
      next (ends.take place ++ e :: ends.drop place)) s := by
  refine ⟨fun rest ends s => J rest (e :: ends) s, ⟨?_, ?_, ?_⟩, hstart, ?_⟩
  · exact fun rest ends => hJ.stable rest (e :: ends)
  · exact fun rest ends s hs => hJ.work rest (e :: ends) s hs
  · exact fun rest ends s hs => hJ.skip rest (e :: ends) s hs
  · exact fun ends s' hs ends' hperm => hend (e :: ends) s' hs _ (perm_insert place hperm)

/-- A move does what the program may do, and leaves the assurance standing. -/
theorem move {post : α → σ → Prop} {p p' : Program α} {s s' : σ} (h : Assures env S post p s)
    (hmove : env.Move p s p' s') : S.guar s s' ∧ Assures env S post p' s' := by
  cases hmove with
  | call => exact h s (S.rely_refl s)
  | work i hi free intime place =>
      obtain ⟨J, hJ, hstart, hend⟩ := h
      obtain ⟨hguar, hnext⟩ := hJ.work _ _ _ hstart intime i hi
      exact ⟨hguar, pool_after hJ place hnext hend⟩
  | skip i hi free late place =>
      obtain ⟨J, hJ, hstart, hend⟩ := h
      have hnext := hJ.skip _ _ _ hstart late i hi
      exact ⟨S.guar_refl s, pool_after hJ place hnext hend⟩
  | close =>
      obtain ⟨J, hJ, hstart, hend⟩ := h
      exact ⟨S.guar_refl s, hend [] s hstart [] (.refl [])⟩
  | look => exact ⟨S.guar_refl s, h s (S.rely_refl s)⟩
  | pause => exact h s (S.rely_refl s)

/-- A program alone keeps to its assurance. -/
theorem yields {post : α → σ → Prop} {p : Program α} {s : σ} (h : Assures env S post p s) :
    env.Yields p s post := by
  -- by induction on what is left of the program: a move leaves less, and keeps the assurance
  have hacc := acc_left env p
  induction hacc generalizing s with
  | intro p _ ih =>
      rcases exists_move env p s with ⟨a, rfl⟩ | ⟨p', s', hmove⟩
      · exact .reached ⟨a, rfl, h s (S.rely_refl s)⟩
      · refine .ahead hmove.solo ?_
        rintro ⟨q, t⟩ hq
        exact ih q ⟨s, t, hq⟩ (h.move hq).2

/-- A property that a program alone keeps holds wherever the program may be stopped. -/
theorem kept {keeps : σ → Prop} {post : α → σ → Prop} {c c' : Program α × σ}
    (h : Assures env (.alone keeps) post c.1 c.2) (hc : keeps c.2)
    (hmoves : ReflTransGen env.Solo c c') : keeps c'.2 := by
  -- by induction on the moves: each does what it may and leaves the assurance standing
  have key : keeps c'.2 ∧ Assures env (.alone keeps) post c'.1 c'.2 := by
    induction hmoves with
    | refl => exact ⟨hc, h⟩
    | tail _ hmove ih =>
        obtain ⟨hguar, hleft⟩ := ih.2.move hmove
        exact ⟨hguar ih.1, hleft⟩
  exact key.1

/-- Two programs, each of which may do what the other one lets it do, keep to their assurances in
every order of their moves. -/
theorem yieldBoth {post : α → σ → Prop} {post' : β → σ → Prop} {p : Program α} {q : Program β}
    {s : σ} (hST : ∀ s s', S.guar s s' → T.rely s s') (hTS : ∀ s s', T.guar s s' → S.rely s s')
    (hp : Assures env S post p s) (hq : Assures env T post' q s) :
    env.YieldBoth p q s fun a b s => post a s ∧ post' b s := by
  -- by induction on what is left of both; what one of them does, the other one relies on
  have hacc := (acc_left env p).prod_gameAdd (acc_left env q)
  generalize hpq : (p, q) = pq at hacc
  induction hacc generalizing p q s with
  | intro pq _ ih =>
      subst hpq
      have hall : ∀ c, env.Duet (p, q, s) c → Inevitable env.Duet
          (fun c => ∃ a b, c.1 = .pure a ∧ c.2.1 = .pure b ∧ post a c.2.2 ∧ post' b c.2.2) c := by
        intro c hc
        cases hc with
        | first _ hmove =>
            obtain ⟨hguar, hleft⟩ := hp.move hmove
            exact ih _ (Prod.GameAdd.fst ⟨_, _, hmove⟩) hleft (hq.others (hST _ _ hguar)) rfl
        | second _ hmove =>
            obtain ⟨hguar, hleft⟩ := hq.move hmove
            exact ih _ (Prod.GameAdd.snd ⟨_, _, hmove⟩) (hp.others (hTS _ _ hguar)) hleft rfl
      rcases exists_move env p s with ⟨a, rfl⟩ | ⟨p', s', hmove⟩
      · rcases exists_move env q s with ⟨b, rfl⟩ | ⟨q', s', hmove⟩
        · exact .reached ⟨a, b, rfl, rfl, hp s (S.rely_refl s), hq s (T.rely_refl s)⟩
        · exact .ahead (.second (.pure a) hmove) hall
      · exact .ahead (.first q hmove) hall

/-- More may be wanted of the end than is assured when it follows. -/
theorem imp {post post' : α → σ → Prop} (himp : ∀ a s, post a s → post' a s) {p : Program α}
    {s : σ} (h : Assures env S post p s) : Assures env S post' p s := by
  induction p generalizing s with
  | pure a => exact fun s' h' => himp a s' (h s' h')
  | call m st next ih => exact fun s' h' => ⟨(h s' h').1, ih _ (h s' h').2⟩
  | pool m workers statements next ih =>
      obtain ⟨J, hJ, hstart, hend⟩ := h
      exact ⟨J, hJ, hstart, fun ends s' hs ends' hperm => ih _ (hend ends s' hs ends' hperm)⟩
  | expired next ih => exact fun s' h' => ih _ (h s' h')
  | pause ms next ih => exact fun s' h' => ⟨(h s' h').1, ih (h s' h').2⟩

/-- One program after another. -/
theorem bind {mid : α → σ → Prop} {post : β → σ → Prop} {f : α → Program β}
    (hf : ∀ a s, mid a s → Assures env S post (f a) s) {p : Program α} {s : σ}
    (h : Assures env S mid p s) : Assures env S post (p.bind f) s := by
  induction p generalizing s with
  | pure a => exact hf a s (h s (S.rely_refl s))
  | call m st next ih => exact fun s' h' => ⟨(h s' h').1, ih _ (h s' h').2⟩
  | pool m workers statements next ih =>
      obtain ⟨J, hJ, hstart, hend⟩ := h
      exact ⟨J, hJ, hstart, fun ends s' hs ends' hperm => ih _ (hend ends s' hs ends' hperm)⟩
  | expired next ih => exact fun s' h' => ih _ (h s' h')
  | pause ms next ih => exact fun s' h' => ⟨(h s' h').1, ih (h s' h').2⟩

end Assures

/-! ## How batches end -/

namespace Achieves

/-- The tables of some parts, merged in their order. -/
def merged (tables : List (Table α)) : Table α := tables.foldl Table.union .empty

/-- When all chunks come to a result, so does the batch. -/
theorem ofEnds_ok (batches : Nat) (tables : List (Table α)) :
    (BatchOutcome.ofEnds batches
      (tables.map fun t => ChunkEnd.worked (.returned (.ok t)))).toExcept = .ok (merged tables) := by
  have key : ∀ (o : BatchOutcome α), o.errors = [] →
      ((tables.map fun t => ChunkEnd.worked (.returned (.ok t))).foldl BatchOutcome.record
        o).toExcept = .ok (tables.foldl Table.union o.results) := by
    induction tables with
    | nil =>
        intro o ho
        unfold BatchOutcome.toExcept
        simp [ho]
    | cons t rest ih => exact fun o ho => ih (o.record (.worked (.returned (.ok t)))) ho
  exact key (.start batches) rfl

/-- The result of a chunk's call has been read as a table. -/
def Reads {m : Method} (read : m.Reply → Except StoreError (Table α)) (e : Completion m)
    (part : Statement × Table α) : Prop :=
  e.chunkEnd read = .worked (.returned (.ok part.2))

theorem map_chunkEnd {m : Method} {read : m.Reply → Except StoreError (Table α)}
    {ends : List (Completion m)} {parts : List (Statement × Table α)}
    (h : List.Forall₂ (Reads read) ends parts) :
    ends.map (·.chunkEnd read) =
      (parts.map (·.2)).map fun t => ChunkEnd.worked (.returned (.ok t)) := by
  induction h with
  | nil => rfl
  | cons h _ ih => exact congrArg₂ List.cons h ih

/-- A chunk has ended without a table. -/
def Spoilt {m : Method} (read : m.Reply → Except StoreError (Table α)) (e : Completion m) : Prop :=
  ∀ t, e.chunkEnd read ≠ .worked (.returned (.ok t))

/-- When a chunk comes to no result, the batch fails. -/
theorem ofEnds_error {m : Method} {read : m.Reply → Except StoreError (Table α)} (batches : Nat)
    {ends : List (Completion m)} (h : ∃ e ∈ ends, Spoilt read e) :
    ∃ error, (BatchOutcome.ofEnds batches (ends.map (·.chunkEnd read))).toExcept = .error error := by
  have key : ∀ (o : BatchOutcome α), (o.errors ≠ [] ∨ ∃ e ∈ ends, Spoilt read e) →
      ((ends.map (·.chunkEnd read)).foldl BatchOutcome.record o).errors ≠ [] := by
    clear h
    induction ends with
    | nil =>
        rintro o (ho | ⟨e, he, -⟩)
        · exact ho
        · exact absurd he List.not_mem_nil
    | cons e rest ih =>
        intro o ho
        refine ih (o.record (e.chunkEnd read)) ?_
        -- what failed so far stays, and a spoilt chunk adds its own failure
        rcases hend : e.chunkEnd read with _ | (_ | _) | _
        · exact Or.inl (by simp [BatchOutcome.record])
        · exact Or.inl (by simp [BatchOutcome.record])
        · rcases ho with ho | ⟨e', he', hspoilt⟩
          · exact Or.inl ho
          · rcases List.mem_cons.1 he' with rfl | he'
            · exact absurd hend (hspoilt _)
            · exact Or.inr ⟨e', he', hspoilt⟩
        · exact Or.inl (by simp [BatchOutcome.record])
  have herrors := key (.start batches) (Or.inr h)
  unfold BatchOutcome.ofEnds BatchOutcome.toExcept
  cases hlist : ((ends.map (·.chunkEnd read)).foldl BatchOutcome.record (.start batches)).errors with
  | nil => exact absurd hlist herrors
  | cons error rest => exact ⟨error, rfl⟩

/-- The ends of a pool so far tell of parts, and the rest of its statements are left. -/
structure Gathered {m : Method} (read : m.Reply → Except StoreError (Table α))
    (statements : List Statement) (parts : List (Statement × Table α)) (rest : List Statement)
    (ends : List (Completion m)) : Prop where
  perm : (parts.map (·.1) ++ rest).Perm statements
  reads : List.Forall₂ (Reads read) ends parts

namespace Gathered

variable {m : Method} {read : m.Reply → Except StoreError (Table α)}
  {statements rest : List Statement} {parts : List (Statement × Table α)} {ends : List (Completion m)}

theorem begin : Gathered read statements [] statements [] := ⟨.refl _, .nil⟩

/-- One more statement has ended, with a table. -/
theorem next (h : Gathered read statements parts rest ends) {i : Nat} (hi : i < rest.length)
    {reply : m.Reply} {table : Table α} (hread : read reply = .ok table) :
    Gathered read statements (parts ++ [(rest[i], table)]) (rest.eraseIdx i)
      (ends ++ [⟨rest[i], some (.ok reply)⟩]) where
  perm := by
    refine List.Perm.trans ?_ h.perm
    rw [List.map_append, List.append_assoc]
    exact List.Perm.append_left _ (List.getElem_cons_eraseIdx_perm hi)
  reads := by
    refine List.rel_append h.reads (.cons ?_ .nil)
    show ChunkEnd.worked (.returned ((read reply).mapError _)) = _
    rw [hread]
    rfl

/-- The ends may be handed on in another order than that in which the calls took effect. -/
theorem outcome (h : Gathered read statements parts [] ends) {ends' : List (Completion m)}
    (hends' : ends'.Perm ends) (batches : Nat) :
    (parts.map (·.1)).Perm statements ∧ ∃ parts' : List (Statement × Table α), parts'.Perm parts ∧
      (BatchOutcome.ofEnds batches (ends'.map (·.chunkEnd read))).toExcept =
        .ok (merged (parts'.map (·.2))) := by
  obtain ⟨parts', hreads, hperm⟩ := List.perm_comp_forall₂ hends' h.reads
  refine ⟨List.append_nil (parts.map (·.1)) ▸ h.perm, parts', hperm, ?_⟩
  rw [map_chunkEnd hreads, ofEnds_ok]

end Gathered

end Achieves

/-! ## Programs that may fail -/

/-- A program has come to a value, in a state as wanted for it, or to a failure, in a state as wanted
for that. -/
def Ends (post : α → σ → Prop) (fail : σ → Prop) : Except StoreError α → σ → Prop
  | .ok a, s => post a s
  | .error _, s => fail s

theorem stable_ends {post : α → σ → Prop} {fail : σ → Prop} (hpost : ∀ a, S.Stable (post a))
    (hfail : S.Stable fail) (r : Except StoreError α) : S.Stable (Ends post fail r) := by
  cases r with
  | ok a => exact hpost a
  | error e => exact hfail

/-- From states with a property on, the program assures a value or a failure, and a state as wanted
for either. -/
def Copes (env : Environment σ) (S : Sharing σ) (pre : σ → Prop) (p : StoreM α)
    (post : α → σ → Prop) (fail : σ → Prop) : Prop :=
  ∀ s, pre s → Assures env S (Ends post fail) p.run s

namespace Copes

variable {pre : σ → Prop} {post : α → σ → Prop} {fail : σ → Prop}

theorem pure {a : α} (hstable : S.Stable (post a)) (h : ∀ s, pre s → post a s) :
    Copes env S pre (Pure.pure a) post fail :=
  fun s hs s' hrely => hstable s s' (h s hs) hrely

theorem bind {mid : α → σ → Prop} {post : β → σ → Prop} {p : StoreM α} {f : α → StoreM β}
    (hfail : S.Stable fail) (hp : Copes env S pre p mid fail)
    (hf : ∀ a, Copes env S (mid a) (f a) post fail) : Copes env S pre (p >>= f) post fail := by
  intro s hs
  refine Assures.bind (fun r s hr => ?_) (hp s hs)
  cases r with
  | ok a => exact hf a s hr
  | error e => exact fun s' hrely => hfail s s' hr hrely

theorem weaken {pre' : σ → Prop} {post' : α → σ → Prop} {fail' : σ → Prop} {p : StoreM α}
    (h : Copes env S pre p post fail) (hpre : ∀ s, pre' s → pre s)
    (hpost : ∀ a s, post a s → post' a s) (hfail : ∀ s, fail s → fail' s) :
    Copes env S pre' p post' fail' := by
  intro s hs
  refine (h s (hpre s hs)).imp fun r s hr => ?_
  cases r with
  | ok a => exact hpost a s hr
  | error e => exact hfail s hr

/-- A fact that is known before the program runs may be used. -/
theorem given {fact : Prop} {p : StoreM α} (h : fact → Copes env S pre p post fail) :
    Copes env S (fun s => fact ∧ pre s) p post fail :=
  fun s hs => h hs.1 s hs.2

theorem call {m : Method} {st : Statement} {post : m.Reply → σ → Prop} (hpre : S.Stable pre)
    (hpost : ∀ reply, S.Stable (post reply)) (hfail : S.Stable fail)
    (h : ∀ s, pre s → S.guar s (env.call m st s).2 ∧
      Ends post fail (env.call m st s).1 (env.call m st s).2) :
    Copes env S pre (StoreM.call m st) post fail := by
  intro s hs s' hrely
  obtain ⟨hguar, hend⟩ := h s' (hpre s s' hs hrely)
  refine ⟨hguar, fun s'' h'' => ?_⟩
  have hstable := stable_ends hpost hfail _ _ s'' hend h''
  cases hresult : (env.call m st s').1 with
  | ok reply =>
      rw [hresult] at hstable
      exact hstable
  | error e =>
      rw [hresult] at hstable
      exact hstable

/-- A pause before a program, unless it takes no time. -/
theorem pauseThen {post : α → σ → Prop} {p : Program α} {J : σ → Prop} (hstable : S.Stable J)
    (ms : Nat) (hpause : ∀ s, J s → S.guar s (env.pause ms s) ∧ J (env.pause ms s))
    (hp : ∀ s, J s → Assures env S post p s) {s : σ} (hs : J s) :
    Assures env S post (do unless ms = 0 do Patient.pause ms
                           p) s := by
  by_cases hms : ms = 0
  · simp only [hms]
    exact hp s hs
  · simp only [hms]
    intro s' hrely
    obtain ⟨hguar, hs'⟩ := hpause s' (hstable s s' hs hrely)
    exact ⟨hguar, hp _ hs'⟩

/-- Before every attempt of a call that may be repeated something holds that tells the number of the
attempt. -/
theorem callRetrying {policy : RetryPolicy} {m : Method} {st : Statement}
    {post : m.Reply → σ → Prop} (J : Nat → σ → Prop) (hstable : ∀ n, S.Stable (J n))
    (hpost : ∀ reply, S.Stable (post reply)) (hfail : S.Stable fail)
    (hstart : ∀ s, pre s → J 1 s)
    (hlate : ∀ n s, J n s → env.expired s = true → fail s)
    (hpause : ∀ n s ms, 1 < n → J n s → S.guar s (env.pause ms s) ∧ J n (env.pause ms s))
    (hcall : ∀ n s, J n s → S.guar s (env.call m st s).2 ∧
      match (env.call m st s).1 with
      | .ok reply => post reply (env.call m st s).2
      | .error e =>
          if policy.shouldRetry e n then J (n + 1) (env.call m st s).2
          else fail (env.call m st s).2) :
    Copes env S pre (StoreM.callRetrying policy m st) post fail := by
  have key : ∀ k n s, policy.maxAttempts - n = k → 1 ≤ n → J n s → Assures env S (Ends post fail)
      (policy.runFrom st.text (fun _ => (Program.call m st .pure : Program (Result m))) n) s := by
    -- by induction on the number of the attempts that are left
    intro k
    induction k using Nat.strongRecOn with
    | ind k ih =>
        intro n s hk hn hs
        rw [RetryPolicy.runFrom]
        intro s₁ hrely
        have hs₁ := hstable n s s₁ hs hrely
        cases hexpired : env.expired s₁ with
        | true => exact fun s₂ h₂ => hfail s₁ s₂ (hlate n s₁ hs₁ hexpired) h₂
        | false =>
            intro s₂ hrely₂
            obtain ⟨hguar, hend⟩ := hcall n s₂ (hstable n s₁ s₂ hs₁ hrely₂)
            refine ⟨hguar, ?_⟩
            generalize (env.call m st s₂).2 = s₃ at hend ⊢
            cases hresult : (env.call m st s₂).1 with
            | ok reply =>
                rw [hresult] at hend
                exact fun s₄ h₄ => hpost reply s₃ s₄ hend h₄
            | error e =>
                rw [hresult] at hend
                show Assures env S _ (if _again : policy.shouldRetry e n then _ else _) s₃
                by_cases hagain : policy.shouldRetry e n
                · simp only [hagain, if_true] at hend
                  rw [dif_pos hagain]
                  have hless : policy.maxAttempts - (n + 1) < k := by
                    simp only [RetryPolicy.shouldRetry, Bool.and_eq_true, decide_eq_true_eq] at hagain
                    omega
                  exact pauseThen (hstable (n + 1)) _
                    (fun s₄ h₄ => hpause (n + 1) s₄ _ (by omega) h₄)
                    (fun s₄ h₄ => ih _ hless (n + 1) s₄ rfl (by omega) h₄) hend
                · simp only [hagain] at hend
                  rw [dif_neg hagain]
                  exact fun s₄ h₄ => hfail s₃ s₄ hend h₄
  exact fun s hs => key _ 1 s rfl (Nat.le_refl 1) (hstart s hs)

/-- Statements sent in a pool end as wanted when each of them does, whatever the order.  The property
`P` speaks of the statements that were carried out, with the tables read from their replies, as long
as all of them came to a table; from the first failure on something else is known of the store. -/
theorem callAll {scheduler : BatchScheduler} {m : Method} {statements : List Statement}
    {read : m.Reply → Except StoreError (Table α)} {post : Table α → σ → Prop} {spoilt : σ → Prop}
    (P : List (Statement × Table α) → σ → Prop) (hpre : ∀ s, pre s → P [] s)
    (hstable : ∀ parts, S.Stable (P parts)) (hspoilt : S.Stable spoilt)
    (hpost : ∀ table, S.Stable (post table)) (hfail : S.Stable fail)
    (hlate : ∀ parts s, P parts s → env.expired s = true → spoilt s)
    (hcall : ∀ parts s st, P parts s → st ∈ statements → S.guar s (env.call m st s).2 ∧
      match (env.call m st s).1 with
      | .ok reply => ∃ table, read reply = .ok table ∧ P (parts ++ [(st, table)]) (env.call m st s).2
      | .error _ => spoilt (env.call m st s).2)
    (hgoOn : ∀ s st, spoilt s → st ∈ statements → S.guar s (env.call m st s).2 ∧
      spoilt (env.call m st s).2)
    (hend : ∀ parts s, P parts s → (parts.map (·.1)).Perm statements →
      ∀ parts' : List (Statement × Table α), parts'.Perm parts →
        post (Achieves.merged (parts'.map (·.2))) s)
    (hbad : ∀ s, spoilt s → fail s) :
    Copes env S pre (StoreM.callAll scheduler m statements read) post fail := by
  intro s hs
  -- either the ends tell of parts with the property, or some chunk is spoilt
  refine ⟨fun rest ends s => (∀ st ∈ rest, st ∈ statements) ∧
    ((∃ parts, P parts s ∧ Achieves.Gathered read statements parts rest ends) ∨
      (spoilt s ∧ ∃ e ∈ ends, Achieves.Spoilt read e)), ⟨?_, ?_, ?_⟩,
    ⟨fun _ => id, Or.inl ⟨[], hpre s hs, .begin⟩⟩, ?_⟩
  · rintro rest ends s s' ⟨hrest, ⟨parts, hparts, hends⟩ | ⟨hs, hbad⟩⟩ hrely
    · exact ⟨hrest, Or.inl ⟨parts, hstable parts s s' hparts hrely, hends⟩⟩
    · exact ⟨hrest, Or.inr ⟨hspoilt s s' hs hrely, hbad⟩⟩
  · rintro rest ends s ⟨hrest, hstate⟩ - i hi
    have hmem : rest[i] ∈ statements := hrest _ (List.getElem_mem hi)
    have hrest' : ∀ st ∈ rest.eraseIdx i, st ∈ statements :=
      fun st hst => hrest st (List.mem_of_mem_eraseIdx hst)
    rcases hstate with ⟨parts, hparts, hends⟩ | ⟨hs, e, he, hbad⟩
    · obtain ⟨hguar, hnext⟩ := hcall parts s _ hparts hmem
      refine ⟨hguar, hrest', ?_⟩
      cases hresult : (env.call m rest[i] s).1 with
      | ok reply =>
          rw [hresult] at hnext
          obtain ⟨table, hread, hnext⟩ := hnext
          exact Or.inl ⟨_, hnext, hends.next hi hread⟩
      | error error =>
          rw [hresult] at hnext
          exact Or.inr ⟨hnext, _, List.mem_append_right _ List.mem_cons_self, fun t h => by cases h⟩
    · obtain ⟨hguar, hnext⟩ := hgoOn s _ hs hmem
      exact ⟨hguar, hrest', Or.inr ⟨hnext, e, List.mem_append_left _ he, hbad⟩⟩
  · rintro rest ends s ⟨hrest, hstate⟩ hexpired i hi
    have hs : spoilt s := by
      rcases hstate with ⟨parts, hparts, -⟩ | ⟨hs, -⟩
      · exact hlate parts s hparts hexpired
      · exact hs
    exact ⟨fun st hst => hrest st (List.mem_of_mem_eraseIdx hst),
      Or.inr ⟨hs, _, List.mem_append_right _ List.mem_cons_self, fun t h => by cases h⟩⟩
  · rintro ends s ⟨-, ⟨parts, hparts, hends⟩ | ⟨hs, e, he, hspoiltEnd⟩⟩ ends' hends' s' hrely
    · obtain ⟨hperm, parts', hperm', houtcome⟩ := hends.outcome hends' statements.length
      rw [houtcome]
      exact hpost _ s s' (hend parts s hparts hperm parts' hperm') hrely
    · obtain ⟨error, herror⟩ := Achieves.ofEnds_error statements.length
        ⟨e, hends'.mem_iff.2 he, hspoiltEnd⟩
      rw [herror]
      exact hfail s s' (hbad s hs) hrely

/-- Statements sent for their effects. -/
theorem sendAll {scheduler : BatchScheduler} {m : Method} {statements : List Statement}
    {post spoilt : σ → Prop} (P : List Statement → σ → Prop) (hpre : ∀ s, pre s → P [] s)
    (hstable : ∀ done, S.Stable (P done)) (hspoilt : S.Stable spoilt) (hpost : S.Stable post)
    (hfail : S.Stable fail) (hlate : ∀ done s, P done s → env.expired s = true → spoilt s)
    (hcall : ∀ done s st, P done s → st ∈ statements → S.guar s (env.call m st s).2 ∧
      Ends (fun _ => P (done ++ [st])) spoilt (env.call m st s).1 (env.call m st s).2)
    (hgoOn : ∀ s st, spoilt s → st ∈ statements → S.guar s (env.call m st s).2 ∧
      spoilt (env.call m st s).2)
    (hend : ∀ done s, P done s → done.Perm statements → post s)
    (hbad : ∀ s, spoilt s → fail s) :
    Copes env S pre (StoreM.sendAll scheduler m statements) (fun _ => post) fail := by
  unfold StoreM.sendAll
  refine Copes.bind hfail ?_ fun _ => Copes.pure hpost fun _ hs => hs
  refine Copes.callAll (fun parts => P (parts.map (·.1))) hpre (fun parts => hstable _) hspoilt
    (fun _ => hpost) hfail (fun parts => hlate _) (fun parts s st hparts hst => ?_) hgoOn
    (fun parts s hparts hperm _ _ => hend _ s hparts hperm) hbad
  obtain ⟨hguar, hnext⟩ := hcall _ s st hparts hst
  refine ⟨hguar, ?_⟩
  cases hresult : (env.call m st s).1 with
  | ok reply =>
      rw [hresult] at hnext
      refine ⟨.empty, rfl, ?_⟩
      rw [List.map_append]
      exact hnext
  | error e =>
      rw [hresult] at hnext
      exact hnext

end Copes

/-! ## Programs that succeed -/

/-- From states with a property on, the program assures success, with a value and a state as
wanted. -/
def Achieves (env : Environment σ) (S : Sharing σ) (pre : σ → Prop) (p : StoreM α)
    (post : α → σ → Prop) : Prop :=
  ∀ s, pre s → Assures env S (fun r s => ∃ a, r = .ok a ∧ post a s) p.run s

namespace Achieves

theorem pure {pre : σ → Prop} {post : α → σ → Prop} {a : α} (hstable : S.Stable (post a))
    (h : ∀ s, pre s → post a s) : Achieves env S pre (Pure.pure a) post :=
  fun s hs s' hrely => ⟨a, rfl, hstable s s' (h s hs) hrely⟩

theorem bind {pre : σ → Prop} {mid : α → σ → Prop} {post : β → σ → Prop} {p : StoreM α}
    {f : α → StoreM β} (hp : Achieves env S pre p mid)
    (hf : ∀ a, Achieves env S (mid a) (f a) post) : Achieves env S pre (p >>= f) post := by
  intro s hs
  refine Assures.bind ?_ (hp s hs)
  rintro r s ⟨a, rfl, ha⟩
  exact hf a s ha

theorem weaken {pre pre' : σ → Prop} {post post' : α → σ → Prop} {p : StoreM α}
    (h : Achieves env S pre p post) (hpre : ∀ s, pre' s → pre s)
    (hpost : ∀ a s, post a s → post' a s) : Achieves env S pre' p post' := by
  intro s hs
  refine (h s (hpre s hs)).imp ?_
  rintro r s ⟨a, rfl, ha⟩
  exact ⟨a, rfl, hpost a s ha⟩

/-- A fact that is known before the program runs may be used. -/
theorem given {fact : Prop} {pre : σ → Prop} {post : α → σ → Prop} {p : StoreM α}
    (h : fact → Achieves env S pre p post) : Achieves env S (fun s => fact ∧ pre s) p post :=
  fun s hs => h hs.1 s hs.2

/-- What a call of the store must do: no more than the program may, and succeed with a reply and a
state as wanted. -/
def CallDoes (env : Environment σ) (S : Sharing σ) (m : Method) (st : Statement)
    (post : m.Reply → σ → Prop) (s : σ) : Prop :=
  S.guar s (env.call m st s).2 ∧
    ∃ reply, (env.call m st s).1 = .ok reply ∧ post reply (env.call m st s).2

/-- To succeed is to cope without failing. -/
theorem iff_copes {pre : σ → Prop} {post : α → σ → Prop} {p : StoreM α} :
    Achieves env S pre p post ↔ Copes env S pre p post fun _ => False := by
  refine forall_congr' fun s => forall_congr' fun _ => ⟨fun h => h.imp ?_, fun h => h.imp ?_⟩
  · rintro r s ⟨a, rfl, ha⟩
    exact ha
  · rintro (e | a) s hr
    · exact hr.elim
    · exact ⟨a, rfl, hr⟩

theorem CallDoes.ends {m : Method} {st : Statement} {post : m.Reply → σ → Prop} {s : σ}
    (h : CallDoes env S m st post s) : S.guar s (env.call m st s).2 ∧
      Ends post (fun _ => False) (env.call m st s).1 (env.call m st s).2 := by
  obtain ⟨hguar, reply, hreply, hend⟩ := h
  refine ⟨hguar, ?_⟩
  rw [hreply]
  exact hend

theorem stable_false : S.Stable fun _ => False := fun _ _ h _ => h

theorem call {pre : σ → Prop} {m : Method} {st : Statement} {post : m.Reply → σ → Prop}
    (hpre : S.Stable pre) (hpost : ∀ reply, S.Stable (post reply))
    (h : ∀ s, pre s → CallDoes env S m st post s) :
    Achieves env S pre (StoreM.call m st) post :=
  iff_copes.2 (Copes.call hpre hpost stable_false fun s hs => (h s hs).ends)

/-- A call that succeeds at once is not repeated. -/
theorem callRetrying {pre : σ → Prop} {policy : RetryPolicy} {m : Method} {st : Statement}
    {post : m.Reply → σ → Prop} (hpre : S.Stable pre) (hpost : ∀ reply, S.Stable (post reply))
    (hintime : ∀ s, pre s → env.expired s = false)
    (h : ∀ s, pre s → CallDoes env S m st post s) :
    Achieves env S pre (StoreM.callRetrying policy m st) post := by
  -- there is no attempt but the first
  refine iff_copes.2 (Copes.callRetrying (fun n s => n = 1 ∧ pre s) (fun n => hpre.given _) hpost
    stable_false (fun s hs => ⟨rfl, hs⟩) ?_ ?_ ?_)
  · rintro n s ⟨-, hs⟩ hlate
    rw [hintime s hs] at hlate
    cases hlate
  · rintro n s ms hn ⟨rfl, -⟩
    omega
  · rintro n s ⟨-, hs⟩
    obtain ⟨hguar, reply, hreply, hend⟩ := h s hs
    refine ⟨hguar, ?_⟩
    rw [hreply]
    exact hend

/-! ### Statements in batches -/

/-- Statements sent in a pool achieve what they achieve one after another in every order, if what is
wanted of them does not depend on the order in which they end.  The property `P` speaks of the
statements that were carried out, with the tables read from their replies. -/
theorem callAll {scheduler : BatchScheduler} {m : Method} {statements : List Statement}
    {read : m.Reply → Except StoreError (Table α)} {pre : σ → Prop} {post : Table α → σ → Prop}
    (P : List (Statement × Table α) → σ → Prop) (hpre : ∀ s, pre s → P [] s)
    (hstable : ∀ parts, S.Stable (P parts)) (hpost : ∀ table, S.Stable (post table))
    (hintime : ∀ parts s, P parts s → env.expired s = false)
    (hcall : ∀ parts s st, P parts s → st ∈ statements → S.guar s (env.call m st s).2 ∧
      ∃ reply table, (env.call m st s).1 = .ok reply ∧ read reply = .ok table ∧
        P (parts ++ [(st, table)]) (env.call m st s).2)
    (hend : ∀ parts s, P parts s → (parts.map (·.1)).Perm statements →
      ∀ parts' : List (Statement × Table α), parts'.Perm parts → post (merged (parts'.map (·.2))) s) :
    Achieves env S pre (StoreM.callAll scheduler m statements read) post := by
  refine iff_copes.2 (Copes.callAll P hpre hstable stable_false hpost stable_false ?_ ?_
    (fun _ _ h => h.elim) hend fun _ => id)
  · intro parts s hparts hlate
    rw [hintime parts s hparts] at hlate
    cases hlate
  · intro parts s st hparts hst
    obtain ⟨hguar, reply, table, hreply, hread, hnext⟩ := hcall parts s st hparts hst
    refine ⟨hguar, ?_⟩
    rw [hreply]
    exact ⟨table, hread, hnext⟩

/-- Statements sent for their effects. -/
theorem sendAll {scheduler : BatchScheduler} {m : Method} {statements : List Statement}
    {pre : σ → Prop} {post : σ → Prop} (P : List Statement → σ → Prop) (hpre : ∀ s, pre s → P [] s)
    (hstable : ∀ done, S.Stable (P done)) (hpost : S.Stable post)
    (hintime : ∀ done s, P done s → env.expired s = false)
    (hcall : ∀ done s st, P done s → st ∈ statements →
      CallDoes env S m st (fun _ => P (done ++ [st])) s)
    (hend : ∀ done s, P done s → done.Perm statements → post s) :
    Achieves env S pre (StoreM.sendAll scheduler m statements) fun _ => post := by
  refine iff_copes.2 (Copes.sendAll P hpre hstable stable_false hpost stable_false ?_
    (fun done s st hdone hst => (hcall done s st hdone hst).ends) (fun _ _ h => h.elim) hend
    fun _ => id)
  intro done s hdone hlate
  rw [hintime done s hdone] at hlate
  cases hlate

end Achieves
end Environment
end InstanceHierarchy
