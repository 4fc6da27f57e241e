import InstanceHierarchy.Proofs.BulkOutcome
import InstanceHierarchy.Proofs.Placing
import InstanceHierarchy.Store.Script

/-!
# The trail of a build from ids

What a build from ids has made can be read off the calls that the store has received, those of other
builds among them: which sources have clones, which of these are still linked, which parent edges
were repeated when both ends were linked, and which clones were given places while they were linked.
-/

namespace InstanceHierarchy

/-! ## What calls do to sources -/

namespace Received

/-- The call clones the source for the hierarchy with the label. -/
def Clones (label : String) (e : Received) (s : Id) : Prop :=
  ∃ key codeList ids hasData, e.statement.operation =
    .mutation (.cloneSources key codeList ids hasData) ∧ NodeLabel.hierarchy key = label ∧ s ∈ ids

/-- The call repeats the parent edges of the source in the hierarchy with the label. -/
def Relates (label : String) (e : Received) (s : Id) : Prop :=
  ∃ key ids, e.statement.operation = .mutation (.relateSources key ids) ∧
    NodeLabel.hierarchy key = label ∧ s ∈ ids

/-- The call gives its place to whatever is linked to the source. -/
def Places (e : Received) (s : Id) : Prop :=
  ∃ codeList ids, e.statement.operation = .mutation (.copyOrder codeList ids) ∧ s ∈ ids

/-- The call removes whatever links lead to the source. -/
def Unlinks (e : Received) (s : Id) : Prop :=
  ∃ ids, e.statement.operation = .mutation (.unlinkSources ids) ∧ s ∈ ids

end Received

namespace Trail

/-- Some call came after calls with which it fits. -/
def Once (P : List Received → Received → Prop) (log : List Received) : Prop :=
  ∃ before e after, log = before ++ e :: after ∧ P before e

/-- The source has been cloned for the hierarchy with the label. -/
def Cloned (label : String) (log : List Received) (s : Id) : Prop := ∃ e ∈ log, e.Clones label s

/-- The source has been cloned for the hierarchy, and no call since then has removed its links. -/
def Linked (label : String) (log : List Received) (s : Id) : Prop :=
  ∃ before e after, log = before ++ e :: after ∧ e.Clones label s ∧ ∀ e' ∈ after, ¬ e'.Unlinks s

/-- The parent edges of a source were repeated when it and the parent were linked. -/
def Mirrored (label : String) (log : List Received) (s t : Id) : Prop :=
  Once (fun before e => e.Relates label s ∧ Linked label before s ∧ Linked label before t) log

/-- Places were given to what is linked to the source, when it was linked. -/
def Placed (label : String) (log : List Received) (s : Id) : Prop :=
  Once (fun before e => e.Places s ∧ Linked label before s) log

theorem split_append {log before after : List Received} {e e' : Received} :
    log ++ [e] = before ++ e' :: after ↔
      (log = before ∧ e = e' ∧ after = []) ∨ ∃ rest, after = rest ++ [e] ∧
        log = before ++ e' :: rest := by
  constructor
  · intro h
    -- the last call is the one that is split off or one of those after it
    rcases List.eq_nil_or_concat after with rfl | ⟨rest, x, rfl⟩
    · obtain ⟨hlog, he⟩ := List.append_inj' h rfl
      exact Or.inl ⟨hlog, List.singleton_inj.1 he, rfl⟩
    · rw [List.concat_eq_append] at h ⊢
      have h' : log ++ [e] = (before ++ e' :: rest) ++ [x] := by
        rw [h, List.append_assoc, List.cons_append]
      obtain ⟨hlog, he⟩ := List.append_inj' h' rfl
      obtain rfl := List.singleton_inj.1 he
      exact Or.inr ⟨rest, rfl, hlog⟩
  · rintro (⟨rfl, rfl, rfl⟩ | ⟨rest, rfl, rfl⟩)
    · rfl
    · rw [List.append_assoc, List.cons_append]

theorem once_append {P : List Received → Received → Prop} {log : List Received} {e : Received} :
    Once P (log ++ [e]) ↔ Once P log ∨ P log e := by
  constructor
  · rintro ⟨before, e', after, hlog, hP⟩
    rcases split_append.1 hlog with ⟨rfl, rfl, rfl⟩ | ⟨rest, rfl, rfl⟩
    · exact Or.inr hP
    · exact Or.inl ⟨before, e', rest, rfl, hP⟩
  · rintro (⟨before, e', after, rfl, hP⟩ | hP)
    · exact ⟨before, e', after ++ [e], by rw [List.append_assoc, List.cons_append], hP⟩
    · exact ⟨log, e, [], rfl, hP⟩

theorem cloned_append {label : String} {log : List Received} {e : Received} {s : Id} :
    Cloned label (log ++ [e]) s ↔ Cloned label log s ∨ e.Clones label s := by
  unfold Cloned
  simp [or_and_right, exists_or]

theorem linked_append {label : String} {log : List Received} {e : Received} {s : Id} :
    Linked label (log ++ [e]) s ↔
      e.Clones label s ∨ (Linked label log s ∧ ¬ e.Unlinks s) := by
  constructor
  · rintro ⟨before, e', after, hlog, hclones, hkeep⟩
    rcases split_append.1 hlog with ⟨rfl, rfl, rfl⟩ | ⟨rest, rfl, rfl⟩
    · exact Or.inl hclones
    · refine Or.inr ⟨⟨before, e', rest, rfl, hclones, fun x hx => ?_⟩, ?_⟩
      · exact hkeep x (List.mem_append_left _ hx)
      · exact hkeep e (List.mem_append_right _ List.mem_cons_self)
  · rintro (hclones | ⟨⟨before, e', after, rfl, hclones, hkeep⟩, he⟩)
    · exact ⟨log, e, [], rfl, hclones, fun x hx => absurd hx List.not_mem_nil⟩
    · refine ⟨before, e', after ++ [e], by rw [List.append_assoc, List.cons_append], hclones, ?_⟩
      intro x hx
      rcases List.mem_append.1 hx with hx | hx
      · exact hkeep x hx
      · exact List.mem_singleton.1 hx ▸ he

theorem Linked.cloned {label : String} {log : List Received} {s : Id} (h : Linked label log s) :
    Cloned label log s := by
  obtain ⟨before, e, after, rfl, hclones, -⟩ := h
  exact ⟨e, List.mem_append_right _ List.mem_cons_self, hclones⟩

theorem cloned_append_left {label : String} {before after : List Received} {s : Id}
    (h : Cloned label before s) : Cloned label (before ++ after) s := by
  obtain ⟨e, he, hclones⟩ := h
  exact ⟨e, List.mem_append_left _ he, hclones⟩

/-- Only cloned sources are given places, -/
theorem Placed.cloned {label : String} {log : List Received} {s : Id} (h : Placed label log s) :
    Cloned label log s := by
  obtain ⟨before, e, after, rfl, -, hlinked⟩ := h
  exact cloned_append_left hlinked.cloned

/-- and only parent edges between cloned sources are repeated. -/
theorem Mirrored.cloned {label : String} {log : List Received} {s t : Id}
    (h : Mirrored label log s t) : Cloned label log s ∧ Cloned label log t := by
  obtain ⟨before, e, after, rfl, -, hs, ht⟩ := h
  exact ⟨cloned_append_left hs.cloned, cloned_append_left ht.cloned⟩

theorem not_linked_nil {label : String} {s : Id} : ¬ Linked label [] s := by
  rintro ⟨before, e, after, h, -⟩
  cases before <;> cases h

theorem not_once_nil {P : List Received → Received → Prop} : ¬ Once P [] := by
  rintro ⟨before, e, after, h, -⟩
  cases before <;> cases h

end Trail
end InstanceHierarchy
