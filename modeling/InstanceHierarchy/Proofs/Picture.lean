import InstanceHierarchy.Proofs.Reachability
import Mathlib.Data.Set.Card

/-!
# Pictures of hierarchies

Builds draw new ids, so the same hierarchy has other ids in every run.  A picture tells the nodes of
a hierarchy apart by their codes alone.  Every step of a build turns the picture of its hierarchy
into another one, and this module says how pictures change; that the graphs show these pictures is
proved operation by operation in the modules that follow.

Several hierarchies may be under construction in one graph.  Their labels form the set `L`
throughout.  A graph is sound for them when it keeps each of them tidy and its ids are fresh.
-/

namespace InstanceHierarchy

open Relation

/-- A hierarchy whose nodes are told apart by their codes. -/
@[ext] structure Picture where
  /-- The properties of the node with a code. -/
  properties : String → Option Properties
  /-- A parent edge leads from the node with one code to the node with another. -/
  parent : String → String → Prop
  /-- A clone edge leads from the node with a code to a source. -/
  link : String → Id → Prop

namespace Picture

/-- The hierarchy without nodes. -/
def empty : Picture := ⟨fun _ => none, fun _ _ => False, fun _ _ => False⟩

/-- A clone of one source is there and linked to it.  A node that has the source's code already
serves as the clone. -/
def cloneOne (codeList : Id) (hasData : Bool) (pic : Picture) (n : Node) : Picture where
  properties c :=
    if c = n.cloneCode then
      (pic.properties n.cloneCode).or
        (some (Graph.cloneProperties n n.cloneCode codeList hasData))
    else pic.properties c
  parent := pic.parent
  link c s := pic.link c s ∨ (c = n.cloneCode ∧ s = n.id)

/-- Clones of several sources are there and linked to them. -/
def clone (codeList : Id) (hasData : Bool) (sources : List Node) (pic : Picture) : Picture :=
  sources.foldl (cloneOne codeList hasData) pic

/-- Some parent edges are added. -/
def withParents (asked : String → String → Prop) (pic : Picture) : Picture :=
  { pic with parent := fun c p => pic.parent c p ∨ asked c p }

/-- The parent edges that leave some sources are repeated between the linked clones. -/
def relate (up : Id → Id → Prop) (sources : List Id) (pic : Picture) : Picture :=
  { pic with
    parent := fun c p => pic.parent c p ∨
      ∃ s ∈ sources, ∃ t, up s t ∧ pic.link c s ∧ pic.link p t }

/-- The links to some sources are cut. -/
def unlink (cut : Id → Prop) (pic : Picture) : Picture :=
  { pic with link := fun c s => pic.link c s ∧ ¬ cut s }

/-- The properties of every node are rewritten. -/
def rewrite (f : String → Properties → Properties) (pic : Picture) : Picture :=
  { pic with properties := fun c => (pic.properties c).map (f c) }

/-- A property is set on the nodes whose codes pass a test. -/
noncomputable def setWhere (test : String → Prop) (key : String) (value : String → Json)
    (pic : Picture) : Picture := by
  classical
  exact pic.rewrite fun c ps => if test c then ps.insert key (value c) else ps

theorem properties_setWhere {test : String → Prop} {key : String} {value : String → Json}
    {pic : Picture} {c : String} (h : test c) :
    (pic.setWhere test key value).properties c =
      (pic.properties c).map fun ps => ps.insert key (value c) := by
  unfold setWhere rewrite
  simp only [if_pos h]

theorem properties_setWhere_of_not {test : String → Prop} {key : String} {value : String → Json}
    {pic : Picture} {c : String} (h : ¬ test c) :
    (pic.setWhere test key value).properties c = pic.properties c := by
  unfold setWhere rewrite
  simp only [if_neg h, Option.map_id']

theorem setWhere_eq_self {test : String → Prop} {key : String} {value : String → Json}
    {pic : Picture} (h : ∀ c, ¬ test c) : pic.setWhere test key value = pic := by
  apply Picture.ext
  · funext c
    exact properties_setWhere_of_not (h c)
  · rfl
  · rfl

/-- The node with a code is flagged as having data. -/
def HasData (pic : Picture) (c : String) : Prop :=
  ∃ ps, pic.properties c = some ps ∧ (ps.get? Property.hasData).bind Json.bool? = some true

/-- The node with a code has data, or a chain of parent edges leads to it from one that has. -/
def Marked (pic : Picture) (c : String) : Prop :=
  ∃ d, pic.HasData d ∧ ReflTransGen pic.parent d c

/-- The nodes that have data, and their ancestors, are marked. -/
noncomputable def mark (pic : Picture) : Picture :=
  pic.setWhere pic.Marked Property.remain fun _ => .bool true

/-- The properties carry the mark. -/
def isMarked (ps : Properties) : Bool := (ps.get? Property.remain).bind Json.bool? = some true

/-- The node with a code carries the mark. -/
def Stays (pic : Picture) (c : String) : Prop :=
  ∃ ps, pic.properties c = some ps ∧ isMarked ps = true

/-- The nodes without the mark are removed with their edges. -/
def prune (pic : Picture) : Picture where
  properties c := (pic.properties c).filter isMarked
  parent c p := pic.parent c p ∧ pic.Stays c ∧ pic.Stays p
  link c s := pic.link c s ∧ pic.Stays c

/-- The marks are taken off. -/
def unmark (pic : Picture) : Picture := pic.rewrite fun _ ps => ps.erase Property.remain

/-- The number of the children of the node with a code. -/
noncomputable def childCount (pic : Picture) (c : String) : Json :=
  .int (Set.ncard { k | pic.parent k c })

/-- The numbers of children are stored with the nodes whose codes pass a test. -/
noncomputable def count (test : String → Prop) (pic : Picture) : Picture :=
  pic.setWhere test Property.numberOfChildren pic.childCount

theorem count_none {test : String → Prop} (pic : Picture) (h : ∀ c, ¬ test c) :
    pic.count test = pic := setWhere_eq_self h

theorem count_count (pic : Picture) (test test' : String → Prop) :
    (pic.count test).count test' = pic.count fun c => test c ∨ test' c := by
  apply Picture.ext
  · funext c
    unfold count
    have heither := @properties_setWhere (fun c => test c ∨ test' c) Property.numberOfChildren
      pic.childCount pic c
    by_cases h' : test' c
    · rw [properties_setWhere h', heither (Or.inr h')]
      by_cases h : test c
      · rw [properties_setWhere h, Option.map_map]
        congr 1
        funext ps
        exact Table.insert_insert_self ps Property.numberOfChildren (pic.childCount c)
      · rw [properties_setWhere_of_not h]
        rfl
    · rw [properties_setWhere_of_not h']
      by_cases h : test c
      · rw [properties_setWhere h, heither (Or.inl h)]
      · rw [properties_setWhere_of_not h]
        exact (properties_setWhere_of_not (not_or.2 ⟨h, h'⟩)).symm
  · rfl
  · rfl

theorem isSome_count (pic : Picture) (test : String → Prop) (c : String) :
    ((pic.count test).properties c).isSome ↔ (pic.properties c).isSome := by
  show (Option.map _ _).isSome ↔ _
  rw [Option.isSome_map]

/-- All children are counted. -/
theorem properties_count_all (pic : Picture) (c : String) :
    (pic.count fun _ => True).properties c =
      (pic.properties c).map fun ps => ps.insert Property.numberOfChildren (pic.childCount c) :=
  properties_setWhere trivial

/-- Only the codes of nodes matter to counting. -/
theorem count_congr {pic : Picture} {test test' : String → Prop}
    (h : ∀ c, (pic.properties c).isSome → (test c ↔ test' c)) : pic.count test = pic.count test' := by
  apply Picture.ext
  · funext c
    unfold count
    cases hc : pic.properties c with
    | none =>
        have hnone : ∀ t : String → Prop, (pic.setWhere t Property.numberOfChildren
            pic.childCount).properties c = none := by
          intro t
          show Option.map _ (pic.properties c) = none
          rw [hc]
          rfl
        rw [hnone, hnone]
    | some ps =>
        have hiff := h c (by rw [hc]; rfl)
        by_cases ht : test c
        · rw [properties_setWhere ht, properties_setWhere (hiff.1 ht)]
        · rw [properties_setWhere_of_not ht, properties_setWhere_of_not fun h => ht (hiff.2 h)]
  · rfl
  · rfl

end Picture

namespace Graph

/-- The graph holds, under a label, the hierarchy of the picture. -/
structure Shows (g : Graph) (label : String) (pic : Picture) : Prop where
  properties : ∀ c ps, pic.properties c = some ps ↔
    ∃ id, g.nodes.get? id = some ⟨label, ps⟩ ∧ codeIn ps = some c
  parent : ∀ c p, pic.parent c p ↔
    ∃ a b, g.Coded label c a ∧ g.Coded label p b ∧ g.Up a b
  link : ∀ c s, pic.link c s ↔ ∃ a, g.Coded label c a ∧ g.Joined EdgeLabel.cloneOf a s

/-- The nodes of a hierarchy have distinct codes.  Only parent edges lead to them, from nodes of the
hierarchy, no two between the same nodes; and but for parent edges only clone edges leave them,
which lead out of the hierarchies under construction. -/
structure Tidy (L : Set String) (label : String) (g : Graph) : Prop where
  coded : ∀ id ps, g.nodes.get? id = some ⟨label, ps⟩ → ∃ c, codeIn ps = some c
  unique : ∀ c a b, g.Coded label c a → g.Coded label c b → a = b
  into : ∀ l a b, g.Joined l a b → g.label? b = some label →
    l = EdgeLabel.hasParent ∧ g.label? a = some label
  outOf : ∀ l a b, g.Joined l a b → g.label? a = some label →
    (l = EdgeLabel.hasParent ∧ g.label? b = some label) ∨
      (l = EdgeLabel.cloneOf ∧ ∀ K ∈ L, g.label? b ≠ some K)
  once : ∀ a b, g.label? a = some label → g.tally EdgeLabel.hasParent a b ≤ 1

/-- The ids are fresh and the hierarchies under construction are tidy. -/
structure Sound (L : Set String) (g : Graph) : Prop where
  fresh : g.Fresh
  tidy : ∀ K ∈ L, Tidy L K g

/-- A clone edge that leaves no node of the hierarchies under construction. -/
def Stray (L : Set String) (g : Graph) (a s : Id) : Prop :=
  g.Joined EdgeLabel.cloneOf a s ∧ ∀ K ∈ L, g.label? a ≠ some K

/-- The nodes outside the hierarchies under construction are the same in both graphs, and so are the
parent edges that leave them; and no other node has new clone edges. -/
structure Preserves (L : Set String) (g g' : Graph) : Prop where
  nodes : ∀ id v, v.label ∉ L → (g'.nodes.get? id = some v ↔ g.nodes.get? id = some v)
  up : ∀ a v, g.nodes.get? a = some v → v.label ∉ L → ∀ b, g'.Up a b ↔ g.Up a b
  stray : ∀ a s, g'.Stray L a s → g.Stray L a s

/-- A change of the graph that keeps it sound, leaves everything outside the hierarchies under
construction alone and changes the picture of each of them by a function of its label. -/
structure Effect (L : Set String) (g g' : Graph) (f : String → Picture → Picture) : Prop where
  sound : Sound L g'
  preserves : Preserves L g g'
  shows : ∀ K ∈ L, ∀ pic, g.Shows K pic → g'.Shows K (f K pic)

/-- Change the picture of one hierarchy and no other. -/
def onlyOn (label : String) (u : Picture → Picture) : String → Picture → Picture :=
  fun K => if K = label then u else id

end Graph
end InstanceHierarchy
