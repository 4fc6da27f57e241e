import InstanceHierarchy.Proofs.Picture

/-!
# The hierarchy that a build is to make

The hierarchy of one dimension of an instance has a clone for every relevant code: every code of the
code list that has observations, and every code that a chain of parent edges within the code list
leads to from such a code.  Where several generic nodes share a code, the first one is the one that
is cloned.  This module says what the hierarchy is, for every graph; which builds make it is proved
in the modules that follow.
-/

namespace InstanceHierarchy

open Relation

namespace Graph

/-- The codes that the data nodes with a label name, ascending. -/
def dataCodes (g : Graph) (label : String) : List String :=
  (TextSet.ofList ((g.nodesWithLabel label).filterMap fun n => n.text? Property.value)).toList

/-- The node with a label that is cloned for a code. -/
def source? (g : Graph) (label code : String) : Option Node :=
  (g.nodesWithLabel label).find? fun n => n.cloneCode = code

/-- A parent edge leads from a node with a label and one code to a node with the label and another
code. -/
def CodeParent (g : Graph) (label c p : String) : Prop :=
  ∃ n ∈ g.nodesWithLabel label, ∃ m ∈ g.nodesWithLabel label,
    g.Up n.id m.id ∧ n.cloneCode = c ∧ m.cloneCode = p

/-- A node with the label carries the code, and the code is among the codes with data. -/
def CodeHasData (g : Graph) (label : String) (codes : List String) (c : String) : Prop :=
  c ∈ codes ∧ ∃ n ∈ g.nodesWithLabel label, n.cloneCode = c

/-- The code has data, or a chain of parent edges leads to it from one that has. -/
def Relevant (g : Graph) (label : String) (codes : List String) (c : String) : Prop :=
  ∃ d, g.CodeHasData label codes d ∧ ReflTransGen (g.CodeParent label) d c

/-- The children of a code in the finished hierarchy. -/
def childCodes (g : Graph) (label : String) (codes : List String) (c : String) : Set String :=
  { k | g.CodeParent label k c ∧ g.Relevant label codes k }

/-- The properties of the clone for a code. -/
noncomputable def instanceProperties (g : Graph) (label : String) (codes : List String)
    (codeList : Id) (c : String) (n : Node) : Properties :=
  (cloneProperties n c codeList (c ∈ codes)).insert Property.numberOfChildren
    (.int (Set.ncard (g.childCodes label codes c)))

open Classical in
/-- The hierarchy that a build is to make from a code list, for some codes with data. -/
noncomputable def instanceOf (g : Graph) (codes : List String) (codeList : Id) : Picture where
  properties c :=
    if g.Relevant (NodeLabel.generic codeList) codes c then
      (g.source? (NodeLabel.generic codeList) c).map
        (g.instanceProperties (NodeLabel.generic codeList) codes codeList c)
    else none
  parent c p := g.CodeParent (NodeLabel.generic codeList) c p ∧
    g.Relevant (NodeLabel.generic codeList) codes c ∧
    g.Relevant (NodeLabel.generic codeList) codes p
  link _ _ := False

theorem properties_instanceOf {g : Graph} {codes : List String} {codeList : Id} {c : String}
    (h : g.Relevant (NodeLabel.generic codeList) codes c) :
    (g.instanceOf codes codeList).properties c = (g.source? (NodeLabel.generic codeList) c).map
      (g.instanceProperties (NodeLabel.generic codeList) codes codeList c) := by
  unfold instanceOf
  exact if_pos h

theorem properties_instanceOf_of_not {g : Graph} {codes : List String} {codeList : Id}
    {c : String} (h : ¬ g.Relevant (NodeLabel.generic codeList) codes c) :
    (g.instanceOf codes codeList).properties c = none := by
  unfold instanceOf
  exact if_neg h

/-- What is stored with a new clone. -/
theorem get?_cloneProperties (n : Node) (c : String) (codeList : Id) (hasData : Bool)
    (key : String) :
    (cloneProperties n c codeList hasData).get? key =
      if key = Property.code then some (.str c)
      else if key = Property.hasData then some (.bool hasData)
      else if key = Property.codeList then some (.str codeList)
      else if key = Property.label then n.properties.get? Property.label
      else none := by
  unfold cloneProperties
  by_cases hcode : key = Property.code
  · subst hcode
    cases n.properties.get? Property.label <;> simp [Table.get?_insert, Property.code,
      Property.hasData, Property.codeList, Property.label]
  · by_cases hdata : key = Property.hasData
    · subst hdata
      cases n.properties.get? Property.label <;> simp [Table.get?_insert, Property.code,
        Property.hasData, Property.codeList, Property.label]
    · by_cases hlist : key = Property.codeList
      · subst hlist
        cases n.properties.get? Property.label <;> simp [Table.get?_insert, Property.code,
          Property.hasData, Property.codeList, Property.label]
      · have hcode' : Property.code ≠ key := fun h => hcode h.symm
        have hdata' : Property.hasData ≠ key := fun h => hdata h.symm
        have hlist' : Property.codeList ≠ key := fun h => hlist h.symm
        by_cases hlabel : key = Property.label
        · subst hlabel
          cases n.properties.get? Property.label <;>
            simp [Table.get?_insert, hcode, hdata, hlist, hcode', hdata', hlist']
        · have hlabel' : Property.label ≠ key := fun h => hlabel h.symm
          cases n.properties.get? Property.label <;>
            simp [Table.get?_insert, hcode, hdata, hlist, hlabel, hcode', hdata', hlist', hlabel']

theorem get?_instanceProperties (g : Graph) (label : String) (codes : List String) (codeList : Id)
    (c : String) (n : Node) (key : String) :
    (g.instanceProperties label codes codeList c n).get? key =
      if Property.numberOfChildren = key then some (.int (Set.ncard (g.childCodes label codes c)))
      else (cloneProperties n c codeList (c ∈ codes)).get? key :=
  Table.get?_insert _ _ key _

theorem source?_isSome {g : Graph} {label c : String} :
    (g.source? label c).isSome ↔ ∃ n ∈ g.nodesWithLabel label, n.cloneCode = c := by
  unfold source?
  rw [List.find?_isSome]
  simp

theorem source?_eq_some {g : Graph} {label c : String} {n : Node} (h : g.source? label c = some n) :
    n ∈ g.nodesWithLabel label ∧ n.cloneCode = c := by
  unfold source? at h
  have hcode := List.find?_some h
  exact ⟨List.mem_of_find?_eq_some h, of_decide_eq_true hcode⟩

/-- A relevant code is the code of a node with the label. -/
theorem Relevant.source {g : Graph} {label c : String} {codes : List String}
    (h : g.Relevant label codes c) : ∃ n ∈ g.nodesWithLabel label, n.cloneCode = c := by
  obtain ⟨d, ⟨-, hd⟩, hchain⟩ := h
  cases hchain with
  | refl => exact hd
  | tail _ hp =>
      obtain ⟨-, -, m, hm, -, -, hmc⟩ := hp
      exact ⟨m, hm, hmc⟩

/-- The codes of the wanted hierarchy are the relevant ones. -/
theorem isSome_instanceOf {g : Graph} {codes : List String} {codeList : Id} {c : String} :
    ((g.instanceOf codes codeList).properties c).isSome ↔
      g.Relevant (NodeLabel.generic codeList) codes c := by
  by_cases hc : g.Relevant (NodeLabel.generic codeList) codes c
  · rw [properties_instanceOf hc, Option.isSome_map]
    exact iff_of_true (source?_isSome.2 hc.source) hc
  · rw [properties_instanceOf_of_not hc]
    exact iff_of_false Bool.false_ne_true hc

end Graph

/-! ## How pictures of clones come about -/

namespace Picture

/-- The clones of some sources carry the properties of the first source with their code. -/
theorem properties_clone (codeList : Id) (hasData : Bool) (sources : List Node) (pic : Picture)
    (c : String) :
    (pic.clone codeList hasData sources).properties c =
      (pic.properties c).or ((sources.find? fun n => n.cloneCode = c).map fun n =>
        Graph.cloneProperties n c codeList hasData) := by
  induction sources generalizing pic with
  | nil => cases h : pic.properties c <;> simp [clone, h]
  | cons n rest ih =>
      have hcons : pic.clone codeList hasData (n :: rest) =
          (pic.cloneOne codeList hasData n).clone codeList hasData rest := rfl
      rw [hcons, ih]
      by_cases hc : n.cloneCode = c
      · subst hc
        cases h : pic.properties n.cloneCode <;> simp [cloneOne, h]
      · have hne : c ≠ n.cloneCode := fun h => hc h.symm
        simp [cloneOne, hne, hc]

theorem parent_clone (codeList : Id) (hasData : Bool) (sources : List Node) (pic : Picture) :
    (pic.clone codeList hasData sources).parent = pic.parent := by
  induction sources generalizing pic with
  | nil => rfl
  | cons n rest ih => exact ih (pic.cloneOne codeList hasData n)

theorem link_clone {codeList : Id} {hasData : Bool} {sources : List Node} {pic : Picture}
    {c : String} {s : Id} :
    (pic.clone codeList hasData sources).link c s ↔
      pic.link c s ∨ ∃ n ∈ sources, n.id = s ∧ n.cloneCode = c := by
  induction sources generalizing pic with
  | nil => simp [clone]
  | cons n rest ih =>
      have hcons : pic.clone codeList hasData (n :: rest) =
          (pic.cloneOne codeList hasData n).clone codeList hasData rest := rfl
      rw [hcons, ih, List.exists_mem_cons_iff, ← or_assoc]
      refine or_congr_left ?_
      show pic.link c s ∨ (c = n.cloneCode ∧ s = n.id) ↔ _
      refine or_congr_right ⟨?_, ?_⟩
      · rintro ⟨rfl, rfl⟩
        exact ⟨rfl, rfl⟩
      · rintro ⟨rfl, rfl⟩
        exact ⟨rfl, rfl⟩

end Picture
end InstanceHierarchy
