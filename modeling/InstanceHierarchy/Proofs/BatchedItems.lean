import InstanceHierarchy.Build
import InstanceHierarchy.Proofs.Assurance
import InstanceHierarchy.Proofs.Tables

/-!
# Items in batches

Statements that are sent for different items, or for batches of ids, lead to what is wanted when all
of them have been carried out, whatever their order.  When one of them fails the others go on, and
something else may be known of the store then.
-/

namespace InstanceHierarchy

open Environment

/-! ## Mutations tell their ids -/

namespace Mutation

theorem cloneSources_injective (key : HierarchyKey) (codeList : Id) (hasData : Bool) :
    Function.Injective fun ids => cloneSources key codeList ids hasData := by
  intro ids ids' h
  cases h
  rfl

theorem relateSources_injective (key : HierarchyKey) : Function.Injective (relateSources key) := by
  intro ids ids' h
  cases h
  rfl

theorem copyOrder_injective (codeList : Id) : Function.Injective (copyOrder codeList) := by
  intro ids ids' h
  cases h
  rfl

theorem unlinkSources_injective : Function.Injective unlinkSources := by
  intro ids ids' h
  cases h
  rfl

theorem countChildrenOf_injective : Function.Injective countChildrenOf := by
  intro ids ids' h
  cases h
  rfl

theorem linkCode_injective (codeList : Id) :
    Function.Injective fun e : Id × String => linkCode codeList e.1 e.2 := by
  intro e e' h
  injection h with _ hid hcode
  exact Prod.ext hid hcode

end Mutation

/-- Statements with different mutations differ. -/
theorem statement_injective {ι : Type} {mutation : ι → Mutation}
    (h : Function.Injective mutation) :
    Function.Injective fun i => Statement.of .gremlin (.mutation (mutation i)) :=
  fun _ _ hij => h (Operation.mutation.inj (congrArg Statement.operation hij))

/-! ## Statements for different items -/

namespace Environment.Copes

variable {σ : Type} {env : Environment σ} {S : Sharing σ} {pre post spoilt fail : σ → Prop}
  {scheduler : BatchScheduler} {method : Method}

/-- Statements that are sent for different items lead, one after another in any order, to the stage
at which all items are done. -/
theorem sendEach {ι : Type} {items : List ι} {statement : ι → Statement}
    (hinj : Function.Injective statement) (stage : List ι → σ → Prop)
    (hstart : ∀ s, pre s → stage [] s) (hstable : ∀ done, S.Stable (stage done))
    (hspoilt : S.Stable spoilt) (hpost : S.Stable post) (hfail : S.Stable fail)
    (hlate : ∀ done s, stage done s → env.expired s = true → spoilt s)
    (hcall : ∀ done s i, stage done s → i ∈ items →
      S.guar s (env.call method (statement i) s).2 ∧
        Ends (fun _ => stage (done ++ [i])) spoilt (env.call method (statement i) s).1
          (env.call method (statement i) s).2)
    (hgoOn : ∀ s i, spoilt s → i ∈ items →
      S.guar s (env.call method (statement i) s).2 ∧ spoilt (env.call method (statement i) s).2)
    (hend : ∀ done s, stage done s → done.Perm items → post s) (hbad : ∀ s, spoilt s → fail s) :
    Copes env S pre (StoreM.sendAll scheduler method (items.map statement)) (fun _ => post)
      fail := by
  refine Copes.sendAll (fun sent s => ∃ done, sent = done.map statement ∧ stage done s)
    (fun s hs => ⟨[], rfl, hstart s hs⟩) (fun sent s s' hs hrely => ?_) hspoilt hpost hfail
    (fun sent s hs hlate' => ?_) (fun sent s st hs hst => ?_) (fun s st hs hst => ?_)
    (fun sent s hs hperm => ?_) hbad
  · obtain ⟨done, hsent, hs⟩ := hs
    exact ⟨done, hsent, hstable done s s' hs hrely⟩
  · obtain ⟨done, -, hs⟩ := hs
    exact hlate done s hs hlate'
  · obtain ⟨done, rfl, hs⟩ := hs
    obtain ⟨i, hi, rfl⟩ := List.mem_map.1 hst
    obtain ⟨hguar, hend⟩ := hcall done s i hs hi
    refine ⟨hguar, ?_⟩
    generalize (env.call method (statement i) s).1 = result at hend ⊢
    cases result with
    | ok reply => exact ⟨done ++ [i], by rw [List.map_append, List.map_singleton], hend⟩
    | error e => exact hend
  · obtain ⟨i, hi, rfl⟩ := List.mem_map.1 hst
    exact hgoOn s i hs hi
  · obtain ⟨done, rfl, hs⟩ := hs
    exact hend done s hs ((List.map_perm_map_iff hinj).1 hperm)

/-- Mutations for batches of ids lead to the stage at which all ids are done. -/
theorem mutateIds {ids : TextSet} {mutation : List Id → Mutation}
    (hinj : Function.Injective mutation) (stage : (Id → Prop) → σ → Prop)
    (hstable : ∀ done, S.Stable (stage done)) (hspoilt : S.Stable spoilt) (hfail : S.Stable fail)
    (hlate : ∀ done s, stage done s → env.expired s = true → spoilt s)
    (hcall : ∀ done s batch, stage done s → (∀ id ∈ batch, id ∈ ids.toList) →
      S.guar s (env.call method (.of .gremlin (.mutation (mutation batch))) s).2 ∧
        Ends (fun _ => stage fun id => done id ∨ id ∈ batch) spoilt
          (env.call method (.of .gremlin (.mutation (mutation batch))) s).1
          (env.call method (.of .gremlin (.mutation (mutation batch))) s).2)
    (hgoOn : ∀ s batch, spoilt s → (∀ id ∈ batch, id ∈ ids.toList) →
      S.guar s (env.call method (.of .gremlin (.mutation (mutation batch))) s).2 ∧
        spoilt (env.call method (.of .gremlin (.mutation (mutation batch))) s).2)
    (hbad : ∀ s, spoilt s → fail s) :
    Copes env S (stage fun _ => False) (Backend.mutateIds scheduler method ids mutation)
      (fun _ => stage (· ∈ ids.toList)) fail := by
  have hmem : ∀ batch ∈ scheduler.split ids.toList, ∀ id ∈ batch, id ∈ ids.toList :=
    fun batch hbatch id hid => mem_split.1 ⟨batch, hbatch, hid⟩
  unfold Backend.mutateIds
  refine sendEach (statement_injective hinj)
    (fun batches => stage fun id => ∃ batch ∈ batches, id ∈ batch) (fun s hs => by simpa using hs)
    (fun batches => hstable _) hspoilt (hstable _) hfail (fun batches => hlate _)
    (fun batches s batch hs hbatch => ?_)
    (fun s batch hs hbatch => hgoOn s batch hs (hmem batch hbatch)) (fun batches s hs hperm => ?_)
    hbad
  · -- one more batch is done
    have hdone : (fun id => ∃ b ∈ batches ++ [batch], id ∈ b) =
        fun id => (∃ b ∈ batches, id ∈ b) ∨ id ∈ batch := by
      funext id
      simp [or_and_right, exists_or]
    rw [hdone]
    exact hcall _ s batch hs (hmem batch hbatch)
  · -- all batches are done, and they hold all ids
    have hdone : (fun id => ∃ batch ∈ batches, id ∈ batch) = (· ∈ ids.toList) := by
      funext id
      refine propext (Iff.trans ?_ (mem_split (s := scheduler)))
      exact exists_congr fun batch => and_congr_left fun _ => hperm.mem_iff
    rw [← hdone]
    exact hs

end Environment.Copes
end InstanceHierarchy
