import InstanceHierarchy.Proofs.Reachability
import Mathlib.Order.Lattice.Nat

/-!
# The search for ancestors goes by distance

Distance is measured in parent edges, and by at least one: a node on a cycle is as far from itself
as the shortest cycle is long.  The search lists what it finds once each, and nothing before
something nearer.

The queue of a search holds nodes of two levels at most, those of the lower level first.  What is
found from the first node of the queue is as near as anything that is still to be found.
-/

namespace InstanceHierarchy

open Relation

/-- The number of edges, one or more, of the shortest chains. -/
noncomputable def distance (r : α → α → Prop) (a b : α) : Nat := sInf { n | 0 < n ∧ Steps r n a b }

/-- A shortest chain. -/
theorem steps_distance {r : α → α → Prop} {a b : α} (h : TransGen r a b) :
    0 < distance r a b ∧ Steps r (distance r a b) a b :=
  Nat.sInf_mem (transGen_iff_steps.1 h)

theorem distance_congr {r : α → α → Prop} {r' : β → β → Prop} {a b : α} {a' b' : β}
    (h : ∀ n, 0 < n → (Steps r n a b ↔ Steps r' n a' b')) : distance r a b = distance r' a' b' := by
  unfold distance
  congr 1
  ext n
  exact and_congr_right (h n)

/-- The number of edges, one or more, of the shortest chains from any of some points. -/
noncomputable def distanceFrom (r : α → α → Prop) (start : List α) (b : α) : Nat :=
  sInf { n | 0 < n ∧ ∃ a ∈ start, Steps r n a b }

@[simp] theorem distanceFrom_singleton {r : α → α → Prop} {a b : α} :
    distanceFrom r [a] b = distance r a b := by
  simp [distanceFrom, distance]

theorem distanceFrom_le {r : α → α → Prop} {start : List α} {a b : α} {n : Nat} (ha : a ∈ start)
    (hn : 0 < n) (h : Steps r n a b) : distanceFrom r start b ≤ n := Nat.sInf_le ⟨hn, a, ha, h⟩

/-- A shortest chain from any of the points. -/
theorem steps_distanceFrom {r : α → α → Prop} {start : List α} {b : α}
    (h : ∃ a ∈ start, TransGen r a b) :
    0 < distanceFrom r start b ∧ ∃ a ∈ start, Steps r (distanceFrom r start b) a b := by
  obtain ⟨a, ha, hchain⟩ := h
  obtain ⟨n, hn, hsteps⟩ := transGen_iff_steps.1 hchain
  exact Nat.sInf_mem (s := { n | 0 < n ∧ ∃ a ∈ start, Steps r n a b }) ⟨n, hn, a, ha, hsteps⟩

/-! ## Levels -/

/-- A chain of one pair or more leads to an id from a queue whose members have levels; the number is
the length of the chain and the level it starts on. -/
def Arrives (pairs : List (Id × Id)) (queue : List (Id × Nat)) (n : Nat) (x : Id) : Prop :=
  ∃ s ∈ queue, ∃ k, 0 < k ∧ Steps (Leads pairs) k s.1 x ∧ n = s.2 + k

/-- One id can be arrived at as soon as another one. -/
def NoFarther (pairs : List (Id × Id)) (queue : List (Id × Nat)) (a b : Id) : Prop :=
  ∀ n, Arrives pairs queue n b → ∃ m ≤ n, Arrives pairs queue m a

/-- The levels of a queue ascend, by one at most. -/
structure Levelled (queue : List (Id × Nat)) : Prop where
  ascending : queue.Pairwise fun s t => s.2 ≤ t.2
  close : ∀ s ∈ queue, ∀ t ∈ queue, t.2 ≤ s.2 + 1

/-- The queue after the parents of its first member have joined it. -/
def joinedBy (pairs : List (Id × Id)) (s : Id × Nat) (queue : List (Id × Nat)) : List (Id × Nat) :=
  queue ++ (parentsAmong pairs s.1).map fun p => (p, s.2 + 1)

variable {pairs : List (Id × Id)} {queue : List (Id × Nat)} {s : Id × Nat}

theorem mem_joinedBy {t : Id × Nat} : t ∈ joinedBy pairs s queue ↔
    t ∈ queue ∨ (Leads pairs s.1 t.1 ∧ t.2 = s.2 + 1) := by
  obtain ⟨x, level⟩ := t
  simp [joinedBy, mem_parentsAmong, eq_comm]

/-- The first member of a queue is on its lowest level. -/
theorem Levelled.first_le (h : Levelled (s :: queue)) {t : Id × Nat} (ht : t ∈ s :: queue) :
    s.2 ≤ t.2 := by
  rcases List.mem_cons.1 ht with rfl | ht
  · exact Nat.le_refl _
  · exact (List.pairwise_cons.1 h.ascending).1 t ht

theorem Levelled.joinedBy (h : Levelled (s :: queue)) : Levelled (joinedBy pairs s queue) := by
  -- all levels are that of the first member or the next one
  have hbounds : ∀ t ∈ InstanceHierarchy.joinedBy pairs s queue, s.2 ≤ t.2 ∧ t.2 ≤ s.2 + 1 := by
    intro t ht
    rcases mem_joinedBy.1 ht with ht | ⟨-, hlevel⟩
    · have hmem := List.mem_cons_of_mem s ht
      exact ⟨h.first_le hmem, h.close s List.mem_cons_self t hmem⟩
    · omega
  constructor
  · refine List.pairwise_append.2 ⟨(List.pairwise_cons.1 h.ascending).2, ?_, ?_⟩
    · exact List.pairwise_map.2 (List.pairwise_of_forall fun _ _ => Nat.le_refl _)
    · intro t ht u hu
      obtain ⟨p, -, rfl⟩ := List.mem_map.1 hu
      exact (hbounds t (List.mem_append_left _ ht)).2
  · intro t ht u hu
    have hlow := (hbounds t ht).1
    have hhigh := (hbounds u hu).2
    omega

/-- The search goes on with the right lengths: every chain from the queue that is left is one from
the queue before. -/
theorem Arrives.before {n : Nat} {x : Id}
    (h : Arrives (pairsWithout pairs s.1) (joinedBy pairs s queue) n x) :
    Arrives pairs (s :: queue) n x := by
  obtain ⟨t, ht, k, hk, hsteps, rfl⟩ := h
  have hsteps : Steps (Leads pairs) k t.1 x :=
    hsteps.mono fun _ _ h => (leads_pairsWithout.1 h).1
  rcases mem_joinedBy.1 ht with ht | ⟨hlead, hlevel⟩
  · exact ⟨t, List.mem_cons_of_mem s ht, k, hk, hsteps, rfl⟩
  · exact ⟨s, List.mem_cons_self, k + 1, Nat.succ_pos k, .cons hlead hsteps, by omega⟩

/-- No chain is lost but those to the parents of the first member. -/
theorem Arrives.next (hlevels : Levelled (s :: queue)) {n : Nat} {x : Id}
    (h : Arrives pairs (s :: queue) n x) (hx : ¬ Leads pairs s.1 x) :
    ∃ m ≤ n, Arrives (pairsWithout pairs s.1) (joinedBy pairs s queue) m x := by
  obtain ⟨t, ht, k, hk, hsteps, rfl⟩ := h
  have hlow := hlevels.first_le ht
  rcases steps_without s.1 hk hsteps with ⟨hne, hsteps⟩ | hlead | ⟨p, j, hp, hj, hjk, hsteps⟩
  · have ht : t ∈ queue := (List.mem_cons.1 ht).resolve_left fun h => hne (congrArg Prod.fst h)
    exact ⟨t.2 + k, Nat.le_refl _, t, mem_joinedBy.2 (Or.inl ht), k, hk, hsteps, rfl⟩
  · exact absurd hlead hx
  · exact ⟨s.2 + 1 + j, by omega, (p, s.2 + 1), mem_joinedBy.2 (Or.inr ⟨hp, rfl⟩), j, hj, hsteps,
      rfl⟩

/-- The parents of the first member are nearest. -/
theorem noFarther_of_leads (hlevels : Levelled (s :: queue)) {a b : Id} (ha : Leads pairs s.1 a) :
    NoFarther pairs (s :: queue) a b := by
  rintro n ⟨t, ht, k, hk, -, rfl⟩
  have hlow := hlevels.first_le ht
  exact ⟨s.2 + 1, by omega, s, List.mem_cons_self, 1, Nat.one_pos, .single ha, rfl⟩

/-- What is nearer later in the search is nearer now. -/
theorem NoFarther.before (hlevels : Levelled (s :: queue)) {a b : Id} (hb : ¬ Leads pairs s.1 b)
    (h : NoFarther (pairsWithout pairs s.1) (joinedBy pairs s queue) a b) :
    NoFarther pairs (s :: queue) a b := by
  intro n hn
  obtain ⟨n', hle, hn'⟩ := hn.next hlevels hb
  obtain ⟨m, hm, harrives⟩ := h n' hn'
  exact ⟨m, Nat.le_trans hm hle, harrives.before⟩

/-! ## The search -/

/-- What a list gains is new to it, and gained once. -/
theorem appendNew_eq (seen xs : List Id) : ∃ new, appendNew seen xs = seen ++ new ∧ new.Nodup ∧
    ∀ x, x ∈ new ↔ x ∈ xs ∧ x ∉ seen := by
  induction xs generalizing seen with
  | nil => exact ⟨[], by simp [appendNew]⟩
  | cons y rest ih =>
      by_cases hy : y ∈ seen
      · obtain ⟨new, heq, hnodup, hmem⟩ := ih seen
        refine ⟨new, by simp [appendNew, hy, heq], hnodup, fun x => ?_⟩
        have hne : x ∉ seen → x ≠ y := fun hx hxy => hx (hxy ▸ hy)
        simp only [hmem, List.mem_cons]
        tauto
      · obtain ⟨new, heq, hnodup, hmem⟩ := ih (seen ++ [y])
        refine ⟨y :: new, by simp [appendNew, hy, heq], by simp [hmem, hnodup], fun x => ?_⟩
        by_cases hx : x = y
        · simp [hx, hy]
        · simp [hx, hmem]

/-- The search adds what it finds once each and in the order of the distance. -/
theorem ancestorsFrom_eq (found : List Id) {ids : List Id} (hqueue : queue.map (·.1) = ids)
    (hlevels : Levelled queue) : ∃ new, ancestorsFrom pairs found ids = found ++ new ∧
      (∀ x ∈ new, x ∉ found) ∧ new.Nodup ∧ new.Pairwise (NoFarther pairs queue) := by
  induction pairs, found, ids using ancestorsFrom.induct generalizing queue with
  | case1 pairs found =>
      exact ⟨[], by rw [ancestorsFrom, List.append_nil], by simp, .nil, .nil⟩
  | case2 pairs found id ids ih =>
      obtain ⟨s, queue, rfl, rfl, hrest⟩ := List.map_eq_cons_iff.1 hqueue
      have hids : (joinedBy pairs s queue).map (·.1) = ids ++ parentsAmong pairs s.1 := by
        simp [joinedBy, Function.comp_def, hrest]
      obtain ⟨first, hfirst, hnodup, hmem⟩ := appendNew_eq found (parentsAmong pairs s.1)
      obtain ⟨later, hlater, hnew, hnodup', hsorted⟩ := ih hids hlevels.joinedBy
      rw [hfirst] at hlater hnew
      -- what is found later is not among the parents that are found now
      have hparent : ∀ x ∈ later, ¬ Leads pairs s.1 x := by
        intro x hx hlead
        have hnot := hnew x hx
        rw [List.mem_append, not_or, hmem] at hnot
        exact hnot.2 ⟨mem_parentsAmong.2 hlead, hnot.1⟩
      refine ⟨first ++ later, ?_, fun x hx => ?_, ?_, ?_⟩
      · rw [ancestorsFrom, hfirst, hlater, List.append_assoc]
      · rcases List.mem_append.1 hx with hx | hx
        · exact ((hmem x).1 hx).2
        · exact fun h => hnew x hx (List.mem_append_left _ h)
      · refine List.nodup_append.2 ⟨hnodup, hnodup', ?_⟩
        rintro x hx y hy rfl
        exact hnew x hy (List.mem_append_right _ hx)
      · have hnear : ∀ a ∈ first, ∀ b, NoFarther pairs (s :: queue) a b := fun a ha b =>
          noFarther_of_leads hlevels (mem_parentsAmong.1 ((hmem a).1 ha).1)
        refine List.pairwise_append.2 ⟨?_, ?_, fun a ha b _ => hnear a ha b⟩
        · exact List.pairwise_of_forall_mem_list fun a ha b _ => hnear a ha b
        · exact hsorted.imp_of_mem fun _ hb h => h.before hlevels (hparent _ hb)

namespace Graph

theorem ancestors_eq (g : Graph) (start : List Id) : (g.ancestors start).Nodup ∧
    (g.ancestors start).Pairwise (NoFarther g.parentPairs (start.map fun s => (s, 0))) := by
  have hlevels : Levelled (start.map fun s => (s, 0)) := by
    constructor
    · exact List.pairwise_map.2 (List.pairwise_of_forall fun _ _ => Nat.le_refl 0)
    · simp
  have hids : (start.map fun s => (s, 0)).map (·.1) = start := by simp [Function.comp_def]
  obtain ⟨new, hnew, -, hnodup, hsorted⟩ := ancestorsFrom_eq [] hids hlevels
  have heq : g.ancestors start = new := hnew
  rw [heq]
  exact ⟨hnodup, hsorted⟩

/-- Every ancestor is listed once. -/
theorem nodup_ancestors (g : Graph) (start : List Id) : (g.ancestors start).Nodup :=
  (g.ancestors_eq start).1

/-- The ancestors of some ids are listed by their distance from the nearest of these. -/
theorem ancestors_ascend_from (g : Graph) (start : List Id) : (g.ancestors start).Pairwise
    fun a b => distanceFrom g.Up start a ≤ distanceFrom g.Up start b := by
  have harrives : ∀ n x, Arrives g.parentPairs (start.map fun s => (s, 0)) n x ↔
      ∃ s ∈ start, 0 < n ∧ Steps g.Up n s x := by
    intro n x
    unfold Arrives
    rw [leads_eq_up]
    simp
  refine (g.ancestors_eq start).2.imp_of_mem fun {a b} _ hb h => ?_
  obtain ⟨hpos, t, ht, hsteps⟩ := steps_distanceFrom (mem_ancestors.1 hb)
  obtain ⟨m, hm, ha⟩ := h _ ((harrives _ b).2 ⟨t, ht, hpos, hsteps⟩)
  obtain ⟨s, hs, hpos, hsteps⟩ := (harrives m a).1 ha
  exact Nat.le_trans (distanceFrom_le hs hpos hsteps) hm

/-- The ancestors of a node are listed by their distance from it. -/
theorem ancestors_ascend (g : Graph) (s : Id) :
    (g.ancestors [s]).Pairwise fun a b => distance g.Up s a ≤ distance g.Up s b := by
  simpa only [distanceFrom_singleton] using g.ancestors_ascend_from [s]

end Graph
end InstanceHierarchy
