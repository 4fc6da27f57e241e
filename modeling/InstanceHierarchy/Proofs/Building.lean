import InstanceHierarchy.Build
import InstanceHierarchy.Proofs.Assurance
import InstanceHierarchy.Proofs.Effects

/-!
# Building side by side

A build works on one of the hierarchies under construction.  It relies on the others to spare its
hierarchy and what lies outside of all of them, and it spares the hierarchies of the others.  The
stages of a build are told by the picture of its hierarchy.
-/

namespace InstanceHierarchy
namespace Graph

variable {L : Set String} {g g' g'' : Graph} {label : String}

/-- A change of the graph that keeps it sound and spares one of the hierarchies under construction
and everything outside of them. -/
def Spares (L : Set String) (label : String) (g g' : Graph) : Prop :=
  Sound L g → Sound L g' ∧ Preserves L g g' ∧ ∀ pic, g.Shows label pic → g'.Shows label pic

theorem Spares.refl (L : Set String) (label : String) (g : Graph) : Spares L label g g :=
  fun hs => ⟨hs, .refl L g, fun _ h => h⟩

theorem Spares.trans (h : Spares L label g g') (h' : Spares L label g' g'') :
    Spares L label g g'' := by
  intro hs
  obtain ⟨hs', hp, hshows⟩ := h hs
  obtain ⟨hs'', hp', hshows'⟩ := h' hs'
  exact ⟨hs'', hp.trans hp', fun pic hpic => hshows' pic (hshows pic hpic)⟩

/-- An effect spares the hierarchies whose pictures it leaves alone. -/
theorem Effect.spares {f : String → Picture → Picture} (h : Effect L g g' f) (hK : label ∈ L)
    (hf : ∀ pic, f label pic = pic) : Spares L label g g' :=
  fun _ => ⟨h.sound, h.preserves, fun pic hpic => by
    have hshows := h.shows label hK pic hpic
    rw [hf] at hshows
    exact hshows⟩

/-- How a build of one of the hierarchies shares the graph. -/
def building (L : Set String) (label : String) : Sharing Graph where
  rely := Spares L label
  guar g g' := ∀ K ∈ L, K ≠ label → Spares L K g g'
  rely_refl := .refl L label
  rely_trans := .trans
  guar_refl g K _ _ := .refl L K g

/-- Builds of different hierarchies put up with each other. -/
theorem building_compatible {A B : String} (hB : B ∈ L) (hne : B ≠ A) (g g' : Graph)
    (h : (building L A).guar g g') : (building L B).rely g g' := h B hB hne

/-- A stage of a build that began with a graph: what lies outside of the hierarchies under
construction is as it was, and the hierarchy of the build is that of a picture. -/
structure Stage (L : Set String) (label : String) (start : Graph) (pic : Picture)
    (g : Graph) : Prop where
  sound : Sound L g
  preserves : Preserves L start g
  shows : g.Shows label pic

theorem stage_stable (L : Set String) (label : String) (start : Graph) (pic : Picture) :
    (building L label).Stable (Stage L label start pic) := by
  intro g g' h hrely
  obtain ⟨hs, hp, hshows⟩ := hrely h.sound
  exact ⟨hs, h.preserves.trans hp, hshows pic h.shows⟩

/-- A change of the picture takes a build from one stage to another one. -/
theorem Stage.change {start : Graph} {pic : Picture} {u : Picture → Picture}
    (h : Stage L label start pic g) (hL : label ∈ L) (heffect : Effect L g g' (onlyOn label u)) :
    (building L label).guar g g' ∧ Stage L label start (u pic) g' := by
  refine ⟨fun K hK hne => heffect.spares hK fun pic => ?_, heffect.sound,
    h.preserves.trans heffect.preserves, ?_⟩
  · rw [onlyOn_of_ne _ hne]
    rfl
  · have hshows := heffect.shows label hL pic h.shows
    rw [onlyOn_self] at hshows
    exact hshows

/-! ## Calls of the graph in memory -/

/-- The methods that mutations are sent by: their new edges are asked for, or not. -/
def Sends (m : Method) : Prop := m = .mutation ∨ m = .edges

theorem perform_mutation (g : Graph) (m : Mutation) :
    (g.perform (.mutation m)).2 = (g.mutate m).2 := by
  unfold perform
  cases hmutate : g.mutate m with
  | mk created g' => cases created <;> simp [hmutate]

/-- A mutation that is sent is carried out. -/
theorem call_mutation (g : Graph) {method : Method} (hm : Sends method) (m : Mutation)
    (text : String) :
    ∃ reply, g.call method ⟨.mutation m, text⟩ = (.ok reply, (g.mutate m).2) := by
  unfold call perform
  cases hmutate : g.mutate m with
  | mk created g' =>
      rcases hm with rfl | rfl
      · cases created <;> exact ⟨(), by simp [hmutate, Method.fit?]⟩
      · cases created with
        | none => exact ⟨[], by simp [hmutate, Method.fit?]⟩
        | some created => exact ⟨created, by simp [hmutate, Method.fit?]⟩

/-- A query that fits its method is answered, and leaves the graph as it is. -/
theorem call_query {g : Graph} {m : Method} {q : Query} {reply : m.Reply}
    (hfit : m.fit? (g.answer q) = some reply) (text : String) :
    g.call m ⟨.query q, text⟩ = (.ok reply, g) := by
  simp [call, perform, hfit]

/-- An answer in rows fits the method that asks for rows. -/
theorem call_rows {g : Graph} {q : Query} {rows : List Json} (h : g.answer q = .rows rows)
    (text : String) : g.call .tabular ⟨.query q, text⟩ = (.ok rows, g) := by
  have hfit : Method.tabular.fit? (g.answer q) = some rows := by
    rw [h]
    rfl
  exact call_query hfit text

open Environment

theorem mutation_does {S : Sharing Graph} {g : Graph} {method : Method} (hm : Sends method)
    {m : Mutation} (text : String) {post : Graph → Prop}
    (h : S.guar g (g.mutate m).2 ∧ post (g.mutate m).2) :
    Achieves.CallDoes graph S method ⟨.mutation m, text⟩ (fun _ => post) g := by
  obtain ⟨reply, heq⟩ := call_mutation g hm m text
  unfold Achieves.CallDoes
  show S.guar g (g.call method ⟨.mutation m, text⟩).2 ∧ ∃ reply,
    (g.call method ⟨.mutation m, text⟩).1 = .ok reply ∧ post (g.call method ⟨.mutation m, text⟩).2
  rw [heq]
  exact ⟨h.1, reply, rfl, h.2⟩

/-- A backend sends a mutation, in one attempt or in several. -/
theorem achieves_mutate {S : Sharing Graph} {pre post : Graph → Prop} (b : Backend)
    {m : Mutation} (hpre : S.Stable pre) (hpost : S.Stable post)
    (h : ∀ g, pre g → S.guar g (g.mutate m).2 ∧ post (g.mutate m).2) :
    Achieves graph S pre (b.mutate m) fun _ => post := by
  cases b with
  | gremlin reading writing =>
      exact Achieves.call hpre (fun _ => hpost) fun g hg => mutation_does (Or.inl rfl) _ (h g hg)
  | cypher retry =>
      exact Achieves.callRetrying hpre (fun _ => hpost) (fun _ _ => rfl) fun g hg =>
        mutation_does (Or.inl rfl) _ (h g hg)

/-- A mutation that changes the picture of the build's hierarchy. -/
theorem achieves_change {start : Graph} {pic : Picture} {u : Picture → Picture} (b : Backend)
    {m : Mutation} (hL : label ∈ L)
    (h : ∀ g, Stage L label start pic g → Effect L g (g.mutate m).2 (onlyOn label u)) :
    Achieves graph (building L label) (Stage L label start pic) (b.mutate m)
      fun _ => Stage L label start (u pic) :=
  achieves_mutate b (stage_stable L label start pic) (stage_stable L label start (u pic))
    fun g hg => hg.change hL (h g hg)

/-- A query leaves the graph as it is. -/
theorem achieves_ask {S : Sharing Graph} {pre : Graph → Prop} (r : Reader) {m : Method} {q : Query}
    {post : m.Reply → Graph → Prop} (hpre : S.Stable pre) (hpost : ∀ reply, S.Stable (post reply))
    (h : ∀ g, pre g → ∃ reply, m.fit? (g.answer q) = some reply ∧ post reply g) :
    Achieves graph S pre (r.ask m q) post := by
  refine Achieves.call hpre hpost fun g hg => ?_
  obtain ⟨reply, hfit, hend⟩ := h g hg
  have heq : g.call m (.of r.dialect (.query q)) = (.ok reply, g) := call_query hfit _
  unfold Achieves.CallDoes
  show S.guar g (g.call m _).2 ∧ ∃ reply, (g.call m _).1 = .ok reply ∧ post reply (g.call m _).2
  rw [heq]
  exact ⟨S.guar_refl g, reply, rfl, hend⟩

end Graph

/-! ## Builds as wholes of their steps -/

/-- The mutation is a step on the whole hierarchy. -/
def Mutation.IsStepOn (key : HierarchyKey) : Mutation → Prop
  | .constrain k | .cloneList k _ | .relateList k _ | .unlinkClones k | .flagData k _
  | .markRemaining k | .dropUnmarked k | .clearMarks k | .countChildren k => k = key
  | .cloneSources .. | .relateSources .. | .copyOrder .. | .linkCode .. | .unlinkSources _
  | .countChildrenOf _ => False

/-- A property that a program over a store has when its parts have it. -/
structure Hereditary (R : (α : Type) → StoreM α → Prop) : Prop where
  pure : ∀ {α : Type} (a : α), R α (Pure.pure a)
  bind : ∀ {α β : Type} {p : StoreM α} {f : α → StoreM β}, R α p → (∀ a, R β (f a)) →
    R β (p >>= f)

namespace Hereditary

variable {R : (α : Type) → StoreM α → Prop}

/-- A build in bulk has the properties of its steps. -/
theorem buildBulk (h : Hereditary R) (b : Backend) (key : HierarchyKey) (codeList : Id)
    (hmutate : ∀ m : Mutation, m.IsStepOn key → R Unit (b.mutate m))
    (hrelate : R Unit (b.relateList key codeList))
    (hcodes : R (List String) (b.reader.dataCodes key)) (hcount : R Int (b.reader.countNodes key)) :
    R BuildReport (b.buildBulk key codeList) := by
  have hconstrain : R Unit (b.constrain key) := by
    cases b with
    | gremlin reading writing => exact h.pure ()
    | cypher retry => exact hmutate (.constrain key) rfl
  have hflag : R Unit (b.flagData key) := by
    refine h.bind hcodes fun codes => ?_
    by_cases hempty : codes.isEmpty
    · rw [if_pos hempty]
      exact h.pure ()
    · rw [if_neg hempty]
      exact hmutate (.flagData key codes) rfl
  refine h.bind hconstrain fun _ => h.bind (hmutate _ rfl) fun _ => h.bind hrelate fun _ => ?_
  refine h.bind (hmutate _ rfl) fun _ => h.bind hflag fun _ => ?_
  refine h.bind (hmutate _ rfl) fun _ => h.bind (hmutate _ rfl) fun _ => ?_
  refine h.bind (hmutate _ rfl) fun _ => h.bind (hmutate _ rfl) fun _ => ?_
  exact h.bind hcodes fun codes => h.bind hcount fun count => h.pure _

/-- A build from ids has the properties of its steps. -/
theorem buildFromIds (h : Hereditary R) (reading writing : BatchScheduler) (placing : Bool)
    (key : HierarchyKey) (codeList : Id)
    (hcodes : R (List String) ((Backend.gremlin reading writing).reader.dataCodes key))
    (hsources : ∀ codes, R CodesById ((Backend.gremlin reading writing).genericIds codeList codes))
    (habove : ∀ codes, R CodesById ((Backend.gremlin reading writing).ancestryIds codeList codes))
    (hnodes : R (List Id) ((Backend.gremlin reading writing).reader.ask .strings (.nodeIds key)))
    (hcount : R Int ((Backend.gremlin reading writing).reader.countNodes key))
    (hsend : ∀ m, Graph.Sends m → ∀ statements : List Statement,
      (∀ st ∈ statements, ∃ mutation, st.operation = .mutation mutation) →
      R Unit (StoreM.sendAll writing m statements)) :
    R BuildReport ((Backend.gremlin reading writing).buildFromIds placing key codeList) := by
  have hmutate : ∀ m, Graph.Sends m → ∀ ids mutation,
      R Unit (Backend.mutateIds writing m ids mutation) := by
    intro m hm ids mutation
    refine hsend m hm _ fun st hst => ?_
    obtain ⟨batch, -, rfl⟩ := List.mem_map.1 hst
    exact ⟨mutation batch, rfl⟩
  have hlink : ∀ codes, R Unit ((Backend.gremlin reading writing).linkCodes codeList codes) := by
    intro codes
    refine hsend .mutation (Or.inl rfl) _ fun st hst => ?_
    obtain ⟨e, -, rfl⟩ := List.mem_map.1 hst
    exact ⟨.linkCode codeList e.1 e.2, rfl⟩
  have hmutation := hmutate .mutation (Or.inl rfl)
  unfold Backend.buildFromIds
  refine h.bind hcodes fun codes => h.bind (hsources codes) fun leaves => ?_
  refine h.bind (habove codes) fun reached => ?_
  refine h.bind (hmutation _ _) fun _ => h.bind (hmutation _ _) fun _ => ?_
  refine h.bind (hmutate .edges (Or.inr rfl) _ _) fun _ => ?_
  have hend : R BuildReport (do
      (Backend.gremlin reading writing).unlinkSources
        (leaves.union (reached.filter fun id _ => !leaves.contains id)).keySet
      let clones ← (Backend.gremlin reading writing).nodeIds key
      (Backend.gremlin reading writing).countChildrenOf clones
      let nodeCount ← (Backend.gremlin reading writing).reader.countNodes key
      return {
        key, codeList, nodeCount
        idDriven := true
        codesWithData := codes.length
        clonedNodes := some
          (leaves.union (reached.filter fun id _ => !leaves.contains id)).size }) := by
    refine h.bind (hmutation _ _) fun _ => ?_
    refine h.bind (h.bind hnodes fun ids => h.pure (TextSet.ofList ids)) fun clones => ?_
    exact h.bind (hmutation _ _) fun _ => h.bind hcount fun count => h.pure _
  cases placing with
  | false => exact hend
  | true => exact h.bind (hlink _) fun _ => h.bind (hmutation _ _) fun _ => hend

end Hereditary
end InstanceHierarchy
