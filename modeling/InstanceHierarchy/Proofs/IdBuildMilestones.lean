import InstanceHierarchy.Proofs.SharedIdBuilds

/-!
# Milestones of builds from ids

A build from ids knows which sources it has cloned, related, linked to codes, given places and cut
loose.  This module says what of that can be read off the record of the store: in company less than
alone, for other builds may cut the links of a hierarchy too early, or give places to its nodes.
-/

namespace InstanceHierarchy

open Trail

/-- What a build has done itself, source by source. -/
structure Milestones where
  cloned : Id → Prop
  related : Id → Prop
  coded : Id → Prop
  placed : Id → Prop
  cut : Id → Prop

/-- No hierarchy but that with the label is under construction. -/
def Alone (L : Set String) (label : String) : Prop := ∀ K ∈ L, K = label

namespace Milestones

variable {L : Set String} {P : Plan} {label : String} {m : Milestones} {g g' : Graph}
  {log : List Received}

/-- A build that has done nothing. -/
def start : Milestones :=
  ⟨fun _ => False, fun _ => False, fun _ => False, fun _ => False, fun _ => False⟩

/-- What the graph and the record say of a build at its milestones. -/
structure Reached (L : Set String) (P : Plan) (label : String) (m : Milestones) (g : Graph)
    (log : List Received) : Prop where
  cloned : ∀ s, Cloned label log s ↔ m.cloned s
  coded : ∀ s, m.coded s → g.CodeLinked P s
  cut : ∀ s, m.cut s → ¬ Linked label log s
  linked : Alone L label → ∀ s, m.cloned s → ¬ m.cut s → Linked label log s
  related : Alone L label → ∀ s t, m.related s → m.cloned t → Mirrored label log s t
  placed : Alone L label → ∀ s, Placed label log s ↔ m.placed s

theorem reached_start (L : Set String) (P : Plan) (label : String) (g : Graph) :
    Reached L P label start g [] where
  cloned _ := ⟨fun ⟨_, he, _⟩ => absurd he List.not_mem_nil, fun h => h.elim⟩
  coded _ h := h.elim
  cut _ h := h.elim
  linked _ _ h := h.elim
  related _ _ _ h := h.elim
  placed _ _ := ⟨fun h => absurd h not_once_nil, fun h => h.elim⟩

/-- Calls of other builds leave the milestones reached. -/
theorem lasting_reached : Lasting L P label (Reached L P label m) := by
  intro g g' log e hcompany hforeign _ hcodes h
  -- in company nothing is said of what holds only alone
  have hnot : ¬ Alone L label := by
    intro halone
    obtain ⟨K, hK, hne⟩ := hcompany
    exact hne (halone K hK)
  refine ⟨fun s => ?_, fun s hs => hcodes s (h.coded s hs), fun s hs => ?_,
    fun halone => absurd halone hnot, fun halone => absurd halone hnot,
    fun halone => absurd halone hnot⟩
  · rw [cloned_append, h.cloned, or_iff_left (hforeign.clones s)]
  · rw [linked_append]
    rintro (hclones | ⟨hlinked, -⟩)
    · exact hforeign.clones s hclones
    · exact h.cut s hs hlinked

/-- Alone, what is linked is what the build has cloned and not cut loose. -/
theorem Reached.linked_iff (h : Reached L P label m g log) (halone : Alone L label) (s : Id) :
    Linked label log s ↔ m.cloned s ∧ ¬ m.cut s :=
  ⟨fun hl => ⟨(h.cloned s).1 hl.cloned, fun hc => h.cut s hc hl⟩,
    fun hs => h.linked halone s hs.1 hs.2⟩

/-- A call of the build itself leads to new milestones. -/
theorem Reached.next {m' : Milestones} {e : Received} (h : Reached L P label m g log)
    (hcloned : ∀ s, m'.cloned s ↔ m.cloned s ∨ e.Clones label s)
    (hcoded : ∀ s, m'.coded s → g'.CodeLinked P s)
    (hcut : ∀ s, m'.cut s → ¬ e.Clones label s ∧ (m.cut s ∨ e.Unlinks s))
    (hlinked : ∀ s, m'.cloned s → ¬ m'.cut s →
      e.Clones label s ∨ ((m.cloned s ∧ ¬ m.cut s) ∧ ¬ e.Unlinks s))
    (hrelated : ∀ s t, m'.related s → m'.cloned t → (m.related s ∧ m.cloned t) ∨
      (e.Relates label s ∧ (m.cloned s ∧ ¬ m.cut s) ∧ m.cloned t ∧ ¬ m.cut t))
    (hplaced : ∀ s, m'.placed s ↔ m.placed s ∨ (e.Places s ∧ m.cloned s ∧ ¬ m.cut s)) :
    Reached L P label m' g' (log ++ [e]) := by
  refine ⟨fun s => ?_, hcoded, fun s hs => ?_, fun halone s hs hc => ?_,
    fun halone s t hs ht => ?_, fun halone s => ?_⟩
  · rw [cloned_append, h.cloned, hcloned]
  · obtain ⟨hclones, hbefore⟩ := hcut s hs
    rw [linked_append]
    rintro (hcl | ⟨hl, hun⟩)
    · exact hclones hcl
    · rcases hbefore with hbefore | hbefore
      · exact h.cut s hbefore hl
      · exact hun hbefore
  · -- alone, the linked sources are at all times those that are cloned and not cut loose
    rw [linked_append, h.linked_iff halone]
    exact hlinked s hs hc
  · refine once_append.2 ?_
    rcases hrelated s t hs ht with ⟨hs, ht⟩ | ⟨hrel, hs, ht⟩
    · exact Or.inl (h.related halone s t hs ht)
    · exact Or.inr ⟨hrel, (h.linked_iff halone s).2 hs, (h.linked_iff halone t).2 ht⟩
  · rw [hplaced s, ← h.linked_iff halone s, ← h.placed halone s]
    exact once_append

/-- A build stands at its milestones, with the children of some nodes counted. -/
abbrev At (L : Set String) (P : Plan) (data : Id → Bool) (label : String)
    (counted : String → Prop) (m : Milestones) : ScriptedStore → Prop :=
  Standing L P data label counted (m.Reached L P label)

theorem stable_at (hready : P.Ready L) {data : Id → Bool} {counted : String → Prop} :
    (company L P label).Stable (m.At L P data label counted) :=
  Standing.stable hready lasting_reached

/-! ## The calls of a build -/

variable {method : Method} {text : String} {key : HierarchyKey} {ids : List Id} {done : Id → Prop}

theorem Reached.cloneSources (h : Reached L P (NodeLabel.hierarchy key) m g log) (codeList : Id)
    (hasData : Bool) (hcodes : ∀ s, g.CodeLinked P s → g'.CodeLinked P s)
    (hrelated : ∀ s, ¬ m.related s) (hcut : ∀ s, ¬ m.cut s)
    (hdone : ∀ s, done s ↔ m.cloned s ∨ s ∈ ids) :
    Reached L P (NodeLabel.hierarchy key) { m with cloned := done } g'
      (log ++ [⟨method, ⟨.mutation (.cloneSources key codeList ids hasData), text⟩⟩]) := by
  refine h.next (fun s => ?_) (fun s hs => hcodes s (h.coded s hs)) (fun s hs => absurd hs (hcut s))
    (fun s hs _ => ?_) (fun s _ hs => absurd hs (hrelated s)) fun s => ?_
  · simp [Received.Clones, hdone]
  · simpa [Received.Clones, Received.Unlinks, hcut, or_comm] using (hdone s).1 hs
  · simp [Received.Places]

theorem Reached.relateSources (h : Reached L P (NodeLabel.hierarchy key) m g log)
    (hcodes : ∀ s, g.CodeLinked P s → g'.CodeLinked P s) (hids : ∀ s ∈ ids, m.cloned s)
    (hcut : ∀ s, ¬ m.cut s) (hdone : ∀ s, done s ↔ m.related s ∨ s ∈ ids) :
    Reached L P (NodeLabel.hierarchy key) { m with related := done } g'
      (log ++ [⟨method, ⟨.mutation (.relateSources key ids), text⟩⟩]) := by
  refine h.next (fun s => ?_) (fun s hs => hcodes s (h.coded s hs)) (fun s hs => absurd hs (hcut s))
    (fun s hs _ => ?_) (fun s t hs ht => ?_) fun s => ?_
  · simp [Received.Clones]
  · simpa [Received.Clones, Received.Unlinks, hcut] using hs
  · rcases (hdone s).1 hs with hs | hs
    · exact Or.inl ⟨hs, ht⟩
    · exact Or.inr ⟨⟨key, ids, rfl, rfl, hs⟩, ⟨hids s hs, hcut s⟩, ht, hcut t⟩
  · simp [Received.Places]

theorem Reached.linkCode (h : Reached L P label m g log) (codeList s : Id) (code : String)
    (hcodes : ∀ s, g.CodeLinked P s → g'.CodeLinked P s) (hs : g'.CodeLinked P s)
    (hdone : ∀ t, done t ↔ m.coded t ∨ t = s) :
    Reached L P label { m with coded := done } g'
      (log ++ [⟨method, ⟨.mutation (.linkCode codeList s code), text⟩⟩]) := by
  refine h.next (fun s => ?_) (fun t ht => ?_) (fun s hs => ?_) (fun s hs hc => ?_)
    (fun s t hs ht => Or.inl ⟨hs, ht⟩) fun s => ?_
  · simp [Received.Clones]
  · rcases (hdone t).1 ht with ht | rfl
    · exact hcodes t (h.coded t ht)
    · exact hs
  · simpa [Received.Clones, Received.Unlinks] using hs
  · have hs' : m.cloned s := hs
    have hc' : ¬ m.cut s := hc
    simp [Received.Unlinks, hs', hc']
  · simp [Received.Places]

theorem Reached.copyOrder (h : Reached L P label m g log) (codeList : Id)
    (hcodes : ∀ s, g.CodeLinked P s → g'.CodeLinked P s) (hids : ∀ s ∈ ids, m.cloned s)
    (hcut : ∀ s, ¬ m.cut s) (hdone : ∀ s, done s ↔ m.placed s ∨ s ∈ ids) :
    Reached L P label { m with placed := done } g'
      (log ++ [⟨method, ⟨.mutation (.copyOrder codeList ids), text⟩⟩]) := by
  refine h.next (fun s => ?_) (fun s hs => hcodes s (h.coded s hs)) (fun s hs => absurd hs (hcut s))
    (fun s hs _ => ?_) (fun s t hs ht => Or.inl ⟨hs, ht⟩) fun s => ?_
  · simp [Received.Clones]
  · simpa [Received.Clones, Received.Unlinks, hcut] using hs
  · refine (hdone s).trans (or_congr_right ⟨fun hs => ?_, ?_⟩)
    · exact ⟨⟨codeList, ids, rfl, hs⟩, hids s hs, hcut s⟩
    · rintro ⟨⟨_, ids', hop, hs⟩, -⟩
      cases hop
      exact hs

theorem Reached.unlinkSources (h : Reached L P label m g log)
    (hcodes : ∀ s, g.CodeLinked P s → g'.CodeLinked P s)
    (hdone : ∀ s, done s ↔ m.cut s ∨ s ∈ ids) :
    Reached L P label { m with cut := done } g'
      (log ++ [⟨method, ⟨.mutation (.unlinkSources ids), text⟩⟩]) := by
  refine h.next (fun s => ?_) (fun s hs => hcodes s (h.coded s hs)) (fun s hs => ?_)
    (fun s hs hc => ?_) (fun s t hs ht => Or.inl ⟨hs, ht⟩) fun s => ?_
  · simp [Received.Clones]
  · simpa [Received.Clones, Received.Unlinks] using (hdone s).1 hs
  · have hs' : m.cloned s := hs
    obtain ⟨hc', hmem⟩ := not_or.1 fun h => hc ((hdone s).2 h)
    simp [Received.Unlinks, hs', hc', hmem]
  · simp [Received.Places]

/-- Counting and asking lead to no new milestones. -/
theorem Reached.idle (h : Reached L P label m g log) {op : Operation}
    (hcodes : ∀ s, g.CodeLinked P s → g'.CodeLinked P s)
    (hop : (∃ q, op = .query q) ∨ ∃ ids, op = .mutation (.countChildrenOf ids)) :
    Reached L P label m g' (log ++ [⟨method, ⟨op, text⟩⟩]) := by
  refine h.next (fun s => ?_) (fun s hs => hcodes s (h.coded s hs)) (fun s hs => ?_)
    (fun s hs hc => ?_) (fun s t hs ht => Or.inl ⟨hs, ht⟩) fun s => ?_
  all_goals
    rcases hop with ⟨q, rfl⟩ | ⟨ids, rfl⟩
    all_goals simp_all [Received.Clones, Received.Unlinks, Received.Places]

/-- Asking leads to no new milestones. -/
theorem At.ask {data : Id → Bool} {counted : String → Prop} {st : ScriptedStore}
    (h : m.At L P data label counted st) (hready : P.Ready L) (hL : label ∈ L) {q : Query}
    {reply : method.Reply} (hfit : method.fit? (st.graph.answer q) = some reply) :
    (company L P label).guar st (ScriptedStore.call method ⟨.query q, text⟩ st).2 ∧
      (ScriptedStore.call method ⟨.query q, text⟩ st).1 = .ok reply ∧
      m.At L P data label counted (ScriptedStore.call method ⟨.query q, text⟩ st).2 :=
  Standing.ask hready h hL hfit (h.holds.idle (fun _ => id) (Or.inl ⟨q, rfl⟩))

end Milestones
end InstanceHierarchy
