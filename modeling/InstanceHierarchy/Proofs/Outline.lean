import InstanceHierarchy.Proofs.Picture
import Mathlib.Data.Multiset.Basic

/-!
# Outlines of hierarchies

The outline of a hierarchy says what can be known of it by the codes of its nodes: the properties of
the nodes that carry a code, and the number of parent edges between nodes that carry two codes.  Two
hierarchies with one outline are the same up to the ids of their nodes and edges.
-/

namespace InstanceHierarchy

/-- What is known of a hierarchy by codes; nodes without a code are there under none. -/
@[ext] structure Outline where
  nodes : Option String → Multiset Properties
  parents : Option String → Option String → Nat

namespace Graph

/-- The code, if any, of the node with a label that has an id. -/
def codeUnder (g : Graph) (label : String) (id : Id) : Option (Option String) :=
  match g.nodes.get? id with
  | some v => if v.label = label then some (codeIn v.properties) else none
  | none => none

/-- The outline of the hierarchy that the nodes with a label make. -/
def outline (g : Graph) (label : String) : Outline where
  nodes c := ((g.nodesWithLabel label).filter fun n => n.text? Property.code = c).map (·.properties)
  parents c p := (g.edgesWithLabel EdgeLabel.hasParent).countP fun e =>
    g.codeUnder label e.source = some c ∧ g.codeUnder label e.target = some p

theorem codeUnder_eq_some {g : Graph} {label : String} {id : Id} {c : Option String} :
    g.codeUnder label id = some c ↔ ∃ ps, g.nodes.get? id = some ⟨label, ps⟩ ∧ codeIn ps = c := by
  unfold codeUnder
  cases hv : g.nodes.get? id with
  | none => simp
  | some v =>
      simp only [Option.some.injEq]
      constructor
      · intro h
        split at h
        · rename_i hl
          exact ⟨v.properties, hl ▸ rfl, Option.some.inj h⟩
        · cases h
      · rintro ⟨ps, rfl, rfl⟩
        rw [if_pos rfl]

theorem codeUnder_eq_code {g : Graph} {label : String} {id : Id} {c : String} :
    g.codeUnder label id = some (some c) ↔ g.Coded label c id := codeUnder_eq_some

end Graph

namespace Picture

open Classical in
/-- The outline of a hierarchy whose nodes have distinct codes. -/
noncomputable def outline (pic : Picture) : Outline where
  nodes
    | some c => (pic.properties c).toList
    | none => 0
  parents
    | some c, some p => if pic.parent c p then 1 else 0
    | _, _ => 0

theorem parents_outline {pic : Picture} {c p : String} (h : pic.parent c p) :
    pic.outline.parents (some c) (some p) = 1 := if_pos h

theorem parents_outline_of_not {pic : Picture} {c p : String} (h : ¬ pic.parent c p) :
    pic.outline.parents (some c) (some p) = 0 := if_neg h

/-- An outline tells the properties of the nodes and the parent edges. -/
theorem outline_eq_iff {pic pic' : Picture} :
    pic.outline = pic'.outline ↔ pic.properties = pic'.properties ∧ pic.parent = pic'.parent := by
  constructor
  · intro h
    refine ⟨funext fun c => ?_, funext fun c => funext fun p => propext ?_⟩
    · -- under each code there is one node or none, and lists of that length have only one order
      have hnodes : ((pic.properties c).toList : Multiset Properties) =
          ((pic'.properties c).toList : Multiset Properties) :=
        congrArg (fun o => o.nodes (some c)) h
      have hperm := Multiset.coe_eq_coe.1 hnodes
      cases hps : pic.properties c with
      | none =>
          rw [hps] at hperm
          cases hqs : pic'.properties c with
          | none => rfl
          | some qs =>
              rw [hqs] at hperm
              exact absurd hperm.length_eq (by simp)
      | some ps =>
          rw [hps] at hperm
          have hlist := List.perm_singleton.1 hperm.symm
          cases hqs : pic'.properties c with
          | none =>
              rw [hqs] at hlist
              cases hlist
          | some qs =>
              rw [hqs] at hlist
              cases hlist
              rfl
    · have hcount : pic.outline.parents (some c) (some p) =
          pic'.outline.parents (some c) (some p) :=
        congrArg (fun o : Outline => o.parents (some c) (some p)) h
      by_cases hp : pic.parent c p
      · refine iff_of_true hp (by_contra fun hp' => ?_)
        rw [parents_outline hp, parents_outline_of_not hp'] at hcount
        omega
      · refine iff_of_false hp fun hp' => ?_
        rw [parents_outline_of_not hp, parents_outline hp'] at hcount
        omega
  · rintro ⟨hproperties, hparent⟩
    unfold outline
    rw [hproperties, hparent]

end Picture

namespace Graph

variable {L : Set String} {g : Graph} {label : String} {pic : Picture}

theorem eq_singleton_of_nodup {α : Type} {xs : List α} {a : α} (hnodup : xs.Nodup) (ha : a ∈ xs)
    (hall : ∀ x ∈ xs, x = a) : xs = [a] := by
  cases xs with
  | nil => exact absurd ha List.not_mem_nil
  | cons x rest =>
      obtain rfl := hall x List.mem_cons_self
      cases rest with
      | nil => rfl
      | cons y rest =>
          have hy : y = x := hall y (List.mem_cons_of_mem _ List.mem_cons_self)
          subst hy
          exact absurd List.mem_cons_self (List.nodup_cons.1 hnodup).1

/-- The nodes with a code, of which there is at most one. -/
theorem outline_nodes (h : g.Shows label pic) (ht : Tidy L label g) (c : Option String) :
    (g.outline label).nodes c = pic.outline.nodes c := by
  have hmem : ∀ n, n ∈ ((g.nodesWithLabel label).filter fun n => n.text? Property.code = c) ↔
      n.label = label ∧ g.nodes.get? n.id = some n.vertex ∧ codeIn n.properties = c := by
    intro n
    rw [List.mem_filter, mem_nodesWithLabel, decide_eq_true_eq, and_assoc]
    rfl
  have hnone : (∀ n, n ∉ ((g.nodesWithLabel label).filter fun n => n.text? Property.code = c)) →
      (g.outline label).nodes c = 0 := by
    intro hempty
    show ((List.map _ _ : List Properties) : Multiset Properties) = 0
    rw [List.eq_nil_iff_forall_not_mem.2 hempty]
    rfl
  cases c with
  | none =>
      refine hnone fun n hn => ?_
      obtain ⟨rfl, hget, hc⟩ := (hmem n).1 hn
      obtain ⟨c, hcode⟩ := ht.coded n.id n.properties hget
      rw [hc] at hcode
      cases hcode
  | some c =>
      show _ = ((pic.properties c).toList : Multiset Properties)
      cases hps : pic.properties c with
      | none =>
          refine hnone fun n hn => ?_
          obtain ⟨rfl, hget, hc⟩ := (hmem n).1 hn
          have hsome := (h.properties c n.properties).2 ⟨n.id, hget, hc⟩
          rw [hps] at hsome
          cases hsome
      | some ps =>
          obtain ⟨id, hid, hcode⟩ := (h.properties c ps).1 hps
          -- no two nodes of the hierarchy have the code
          have hone : ((g.nodesWithLabel label).filter fun n => n.text? Property.code = some c) =
              [⟨id, label, ps⟩] := by
            refine eq_singleton_of_nodup ?_ ((hmem _).2 ⟨rfl, hid, hcode⟩) fun n hn => ?_
            · exact (List.Nodup.of_map _ (g.nodup_idsWithLabel label)).filter _
            · obtain ⟨rfl, hget, hc⟩ := (hmem n).1 hn
              obtain rfl := ht.unique c n.id id ⟨n.properties, hget, hc⟩ ⟨ps, hid, hcode⟩
              rw [hget] at hid
              cases hid
              rfl
          show ((List.map _ _ : List Properties) : Multiset Properties) = _
          rw [hone]
          rfl

/-- Between two nodes of a hierarchy there is at most one parent edge. -/
theorem outline_parents (h : g.Shows label pic) (ht : Tidy L label g) (c p : Option String) :
    (g.outline label).parents c p = pic.outline.parents c p := by
  have hcount : (g.outline label).parents c p = g.edges.countP fun e =>
      e.label = EdgeLabel.hasParent ∧ g.codeUnder label e.source = some c ∧
        g.codeUnder label e.target = some p := by
    show (g.edges.filter _).countP _ = _
    rw [List.countP_filter]
    apply List.countP_congr
    intro e _
    simp only [Bool.and_eq_true, decide_eq_true_eq]
    exact and_comm
  have hzero : (∀ a b, ¬ (g.codeUnder label a = some c ∧ g.codeUnder label b = some p ∧
      g.Up a b)) → (g.outline label).parents c p = 0 := by
    intro hno
    rw [hcount, List.countP_eq_zero]
    intro e he
    rw [decide_eq_true_eq]
    rintro ⟨hl, hc, hp⟩
    exact hno e.source e.target ⟨hc, hp, joined_iff.2 ⟨e, he, hl, rfl, rfl⟩⟩
  -- all nodes of the hierarchy have codes
  have hcode : ∀ {id : Id}, g.codeUnder label id ≠ some none := by
    intro id hnone
    obtain ⟨ps, hps, hc⟩ := codeUnder_eq_some.1 hnone
    obtain ⟨c, hcode⟩ := ht.coded id ps hps
    rw [hc] at hcode
    cases hcode
  cases c with
  | none => exact hzero fun a b hab => hcode hab.1
  | some c =>
      cases p with
      | none => exact hzero fun a b hab => hcode hab.2.1
      | some p =>
          by_cases hp : pic.parent c p
          · obtain ⟨a, b, ha, hb, hup⟩ := (h.parent c p).1 hp
            -- the edges between the codes are those between their nodes, which is one
            have hone : g.tally EdgeLabel.hasParent a b = 1 :=
              Nat.le_antisymm (ht.once a b ha.label) hup
            rw [Picture.parents_outline hp, hcount, ← hone]
            unfold tally
            apply List.countP_congr
            intro e _
            simp only [decide_eq_true_eq, codeUnder_eq_code]
            constructor
            · rintro ⟨hl, hs, ht'⟩
              exact ⟨hl, ht.unique c _ _ hs ha, ht.unique p _ _ ht' hb⟩
            · rintro ⟨hl, rfl, rfl⟩
              exact ⟨hl, ha, hb⟩
          · rw [Picture.parents_outline_of_not hp]
            refine hzero fun a b hab => hp ?_
            exact (h.parent c p).2 ⟨a, b, codeUnder_eq_code.1 hab.1, codeUnder_eq_code.1 hab.2.1,
              hab.2.2⟩

/-- The outline of a tidy hierarchy is that of its picture. -/
theorem outline_eq (h : g.Shows label pic) (ht : Tidy L label g) :
    g.outline label = pic.outline :=
  Outline.ext (funext (outline_nodes h ht)) (funext₂ (outline_parents h ht))

end Graph
end InstanceHierarchy
