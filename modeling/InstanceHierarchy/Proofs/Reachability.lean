import InstanceHierarchy.Proofs.Observations
import Mathlib.Logic.Relation

/-!
# The search for ancestors is reachability

The search follows every parent edge once.  What it finds is therefore exactly what chains of
parent edges lead to, on graphs with and without cycles.
-/

namespace InstanceHierarchy

open Relation

/-! ## Chains of a length -/

variable {α : Type*}

/-- A chain of a number of edges leads from one point to another. -/
def Steps (r : α → α → Prop) : Nat → α → α → Prop
  | 0, a, b => a = b
  | n + 1, a, b => ∃ x, Steps r n a x ∧ r x b

namespace Steps

variable {r r' : α → α → Prop} {n : Nat} {a b c : α}

theorem snoc (h : Steps r n a b) (hbc : r b c) : Steps r (n + 1) a c := ⟨b, h, hbc⟩

theorem single (h : r a b) : Steps r 1 a b := snoc (n := 0) rfl h

theorem cons (hab : r a b) (h : Steps r n b c) : Steps r (n + 1) a c := by
  induction n generalizing c with
  | zero =>
      obtain rfl : b = c := h
      exact .single hab
  | succ n ih =>
      obtain ⟨x, hx, hxc⟩ := h
      exact (ih hx).snoc hxc

theorem mono (hsub : ∀ a b, r a b → r' a b) (h : Steps r n a b) : Steps r' n a b := by
  induction n generalizing b with
  | zero => exact h
  | succ n ih =>
      obtain ⟨x, hx, hxb⟩ := h
      exact (ih hx).snoc (hsub x b hxb)

end Steps

/-- Chains have a length. -/
theorem reflTransGen_iff_steps {r : α → α → Prop} {a b : α} :
    ReflTransGen r a b ↔ ∃ n, Steps r n a b := by
  constructor
  · intro h
    induction h with
    | refl => exact ⟨0, rfl⟩
    | tail _ hbc ih =>
        obtain ⟨n, h⟩ := ih
        exact ⟨n + 1, h.snoc hbc⟩
  · rintro ⟨n, h⟩
    induction n generalizing b with
    | zero =>
        obtain rfl : a = b := h
        exact .refl
    | succ n ih =>
        obtain ⟨x, hx, hxb⟩ := h
        exact (ih hx).tail hxb

theorem transGen_iff_steps {r : α → α → Prop} {a b : α} :
    TransGen r a b ↔ ∃ n, 0 < n ∧ Steps r n a b := by
  rw [TransGen.tail'_iff]
  constructor
  · rintro ⟨x, hx, hxb⟩
    obtain ⟨n, h⟩ := reflTransGen_iff_steps.1 hx
    exact ⟨n + 1, Nat.succ_pos n, h.snoc hxb⟩
  · rintro ⟨n, hn, h⟩
    cases n with
    | zero => exact absurd hn (Nat.lt_irrefl 0)
    | succ n =>
        obtain ⟨x, hx, hxb⟩ := h
        exact ⟨x, reflTransGen_iff_steps.2 ⟨n, hx⟩, hxb⟩

/-- Where the chains have the same lengths, there are chains on both sides or on none. -/
theorem transGen_congr {β : Type*} {r : α → α → Prop} {r' : β → β → Prop} {a b : α} {a' b' : β}
    (h : ∀ n, 0 < n → (Steps r n a b ↔ Steps r' n a' b')) :
    TransGen r a b ↔ TransGen r' a' b' := by
  rw [transGen_iff_steps, transGen_iff_steps]
  exact exists_congr fun n => and_congr_right (h n)

/-! ## What the search finds -/

theorem mem_appendNew {seen xs : List Id} {x : Id} :
    x ∈ appendNew seen xs ↔ x ∈ seen ∨ x ∈ xs := by
  induction xs generalizing seen with
  | nil => simp [appendNew]
  | cons y rest ih =>
      rw [appendNew, ih]
      by_cases hy : y ∈ seen
      · rw [if_pos hy, List.mem_cons]
        constructor
        · rintro (h | h)
          · exact Or.inl h
          · exact Or.inr (Or.inr h)
        · rintro (h | rfl | h)
          · exact Or.inl h
          · exact Or.inl hy
          · exact Or.inr h
      · rw [if_neg hy, List.mem_append, List.mem_singleton, List.mem_cons, or_assoc]

/-- One of the pairs leads from an id to another. -/
def Leads (pairs : List (Id × Id)) (a b : Id) : Prop := (a, b) ∈ pairs

theorem mem_parentsAmong {pairs : List (Id × Id)} {a b : Id} :
    b ∈ parentsAmong pairs a ↔ Leads pairs a b := by
  unfold parentsAmong Leads
  simp

theorem leads_pairsWithout {pairs : List (Id × Id)} {id a b : Id} :
    Leads (pairsWithout pairs id) a b ↔ Leads pairs a b ∧ a ≠ id := by
  unfold pairsWithout Leads
  simp

/-- A chain of pairs either avoids the pairs that leave an id, also where it starts, or goes on
without them from where one of them leads. -/
theorem steps_without {pairs : List (Id × Id)} (id : Id) {k : Nat} {s x : Id} (hk : 0 < k)
    (h : Steps (Leads pairs) k s x) :
    (s ≠ id ∧ Steps (Leads (pairsWithout pairs id)) k s x) ∨ Leads pairs id x ∨
      ∃ p j, Leads pairs id p ∧ 0 < j ∧ j < k ∧ Steps (Leads (pairsWithout pairs id)) j p x := by
  induction k generalizing x with
  | zero => exact absurd hk (Nat.lt_irrefl 0)
  | succ k ih =>
      obtain ⟨y, hy, hlead⟩ := h
      by_cases hyid : y = id
      · exact Or.inr (Or.inl (hyid ▸ hlead))
      · have hlast : Leads (pairsWithout pairs id) y x := leads_pairsWithout.2 ⟨hlead, hyid⟩
        cases k with
        | zero =>
            obtain rfl : s = y := hy
            exact Or.inl ⟨hyid, .single hlast⟩
        | succ k =>
            rcases ih (Nat.succ_pos k) hy with ⟨hs, h⟩ | hp | ⟨p, j, hp, hj, hjk, h⟩
            · exact Or.inl ⟨hs, h.snoc hlast⟩
            · exact Or.inr (Or.inr ⟨y, 1, hp, Nat.one_pos, by omega, .single hlast⟩)
            · exact Or.inr (Or.inr ⟨p, j + 1, hp, by omega, by omega, h.snoc hlast⟩)

theorem chain_without {pairs : List (Id × Id)} (id : Id) {s x : Id}
    (h : TransGen (Leads pairs) s x) :
    (s ≠ id ∧ TransGen (Leads (pairsWithout pairs id)) s x) ∨ Leads pairs id x ∨
      ∃ p, Leads pairs id p ∧ TransGen (Leads (pairsWithout pairs id)) p x := by
  obtain ⟨k, hk, h⟩ := transGen_iff_steps.1 h
  rcases steps_without id hk h with ⟨hs, h⟩ | h | ⟨p, j, hp, hj, -, h⟩
  · exact Or.inl ⟨hs, transGen_iff_steps.2 ⟨k, hk, h⟩⟩
  · exact Or.inr (Or.inl h)
  · exact Or.inr (Or.inr ⟨p, hp, transGen_iff_steps.2 ⟨j, hj, h⟩⟩)

theorem mem_ancestorsFrom {pairs : List (Id × Id)} {found queue : List Id} {x : Id} :
    x ∈ ancestorsFrom pairs found queue ↔
      x ∈ found ∨ ∃ s ∈ queue, TransGen (Leads pairs) s x := by
  induction pairs, found, queue using ancestorsFrom.induct with
  | case1 pairs found => simp [ancestorsFrom]
  | case2 pairs found id queue ih =>
      rw [ancestorsFrom, ih, mem_appendNew]
      have hsub : ∀ {a b}, TransGen (Leads (pairsWithout pairs id)) a b →
          TransGen (Leads pairs) a b :=
        fun {a b} h => TransGen.mono (fun _ _ h => (leads_pairsWithout.1 h).1) a b h
      constructor
      · rintro ((h | h) | ⟨s, hs, h⟩)
        · exact Or.inl h
        · exact Or.inr ⟨id, List.mem_cons_self, .single (mem_parentsAmong.1 h)⟩
        · rcases List.mem_append.1 hs with hs | hs
          · exact Or.inr ⟨s, List.mem_cons_of_mem _ hs, hsub h⟩
          · exact Or.inr ⟨id, List.mem_cons_self, .head (mem_parentsAmong.1 hs) (hsub h)⟩
      · rintro (h | ⟨s, hs, h⟩)
        · exact Or.inl (Or.inl h)
        · rcases chain_without id h with ⟨hne, h⟩ | h | ⟨p, hp, h⟩
          · have hs : s ∈ queue := (List.mem_cons.1 hs).resolve_left hne
            exact Or.inr ⟨s, List.mem_append_left _ hs, h⟩
          · exact Or.inl (Or.inr (mem_parentsAmong.2 h))
          · exact Or.inr ⟨p, List.mem_append_right _ (mem_parentsAmong.2 hp), h⟩

namespace Graph

/-- A parent edge leads from one id to another. -/
abbrev Up (g : Graph) (a b : Id) : Prop := g.Joined EdgeLabel.hasParent a b

/-- Parent edges lead from nodes with the label to nodes with the label only. -/
def Closed (g : Graph) (label : String) : Prop :=
  ∀ a b, g.Up a b → g.label? a = some label → g.label? b = some label

theorem Closed.of_edges {g : Graph} {label : String}
    (h : ∀ e ∈ g.edges, e.label = EdgeLabel.hasParent → g.label? e.source = some label →
      g.label? e.target = some label) : g.Closed label := by
  intro a b hup ha
  obtain ⟨e, he, hl, rfl, rfl⟩ := joined_iff.1 hup
  exact h e he hl ha

theorem Closed.chain {g : Graph} {label : String} (h : g.Closed label) {a b : Id}
    (ha : g.label? a = some label) (hchain : ReflTransGen g.Up a b) : g.label? b = some label := by
  induction hchain with
  | refl => exact ha
  | tail _ hup ih => exact h _ _ hup ih

theorem leads_parentPairs {g : Graph} {a b : Id} : Leads g.parentPairs a b ↔ g.Up a b := by
  unfold Leads parentPairs edgesWithLabel Up
  rw [joined_iff]
  simp [and_assoc]

theorem leads_eq_up (g : Graph) : Leads g.parentPairs = g.Up := by
  funext a b
  exact propext leads_parentPairs

/-- The ancestors of some ids are what chains of one parent edge or more lead to from them. -/
theorem mem_ancestors {g : Graph} {start : List Id} {x : Id} :
    x ∈ g.ancestors start ↔ ∃ s ∈ start, TransGen g.Up s x := by
  unfold ancestors
  rw [mem_ancestorsFrom, leads_eq_up]
  simp

end Graph
end InstanceHierarchy
