import InstanceHierarchy.Proofs.BulkSteps
import InstanceHierarchy.Proofs.Strictness

/-!
# Builds with a store in trouble

Whatever goes wrong while a hierarchy is built, a build that reports success has made the hierarchy
that it makes when nothing goes wrong.  The backend that sends every statement once is strict: its
build succeeds only if nothing has gone wrong.  The backend that repeats statements may have met
failures, even ones of statements that had taken effect; it succeeds because every step may be
carried out again, and it does succeed when the failures are passing ones and not too many in a row.
-/

namespace InstanceHierarchy

open Relation Environment

/-! ## What a build can be asked to overcome -/

/-- What went wrong is what repeating can make good: reads were answered, all errors were passing
ones, and no mutation failed as often in a row as a policy attempts it. -/
structure Mild (retry : RetryPolicy) (record : List (Operation × Fate)) : Prop where
  reads : ∀ e ∈ record, e.1.isRead = true → e.2.error? = none
  transient : ∀ e ∈ record, ∀ error, e.2.error? = some error → error.isTransient = true
  few : ∀ m before block after, record = before ++ block ++ after →
    (∀ e ∈ block, e.1 = .mutation m ∧ e.2.error? ≠ none) → block.length < retry.maxAttempts

/-- A policy that repeats after passing errors has met more than it can be asked to overcome. -/
def Overtaxed (retry : RetryPolicy) (t : Trouble) (s : TroubledStore) : Prop :=
  (∀ e : StoreError, e.isTransient = true → retry.isPassing e = true) →
    (∀ n, t.late n = false) → ¬ Mild retry s.record

variable {t : Trouble} {retry : RetryPolicy} {keeps P Q : Graph → Prop}

/-- The last calls were attempts of a mutation, all of which failed. -/
def Failing (m : Mutation) (attempts : Nat) (record : List (Operation × Fate)) : Prop :=
  ∃ before block, record = before ++ block ∧ block.length = attempts ∧
    ∀ e ∈ block, e.1 = .mutation m ∧ e.2.error? ≠ none

theorem Failing.next {m : Mutation} {attempts : Nat} {record : List (Operation × Fate)}
    (h : Failing m attempts record) {fate : Fate} (hfate : fate.error? ≠ none) :
    Failing m (attempts + 1) (record ++ [(.mutation m, fate)]) := by
  obtain ⟨before, block, rfl, rfl, hblock⟩ := h
  refine ⟨before, block ++ [(.mutation m, fate)], List.append_assoc _ _ _, by simp, ?_⟩
  intro e he
  rcases List.mem_append.1 he with he | he
  · exact hblock e he
  · obtain rfl := List.mem_singleton.1 he
    exact ⟨rfl, hfate⟩

/-- A mutation that is given up has failed for good, or as often in a row as it is attempted. -/
theorem Failing.overtaxed {m : Mutation} {n : Nat} {s : TroubledStore}
    (h : Failing m n s.record) {fate : Fate} {e : StoreError}
    (hmem : (.mutation m, fate) ∈ s.record) (hfate : fate.error? = some e)
    (hgiveUp : ¬ retry.shouldRetry e n = true) : Overtaxed retry t s := by
  intro hpassing _ hmild
  obtain ⟨before, block, hrecord, rfl, hblock⟩ := h
  have htransient := hpassing e (hmild.transient _ hmem e hfate)
  have hfew := hmild.few m before block [] (by rw [List.append_nil, hrecord]) hblock
  rw [RetryPolicy.shouldRetry, htransient, Bool.and_true, decide_eq_true_eq] at hgiveUp
  exact hgiveUp hfew

namespace Graph

variable {key : HierarchyKey} {codeList : Id}

/-- A mutation that is repeated is carried out in the end, or more has gone wrong than repeating can
make good. -/
theorem copes_repeated (keeps : Graph → Prop) {m : Mutation} (hstep : ∀ g, P g → Q (g.mutate m).2)
    (hagain : ∀ g, Q g → Q (g.mutate m).2) (hkeeps : ∀ g, Q g → keeps g) :
    Copes t.environment (.alone fun s => keeps s.graph) (fun s => P s.graph)
      ((Backend.cypher retry).mutate m) (fun _ s => Q s.graph) (Overtaxed retry t) := by
  have hstable := Sharing.stable_alone fun s : TroubledStore => keeps s.graph
  -- before each attempt the mutation has been carried out or not, and it has failed each time
  refine Copes.callRetrying
    (fun n s => (P s.graph ∨ Q s.graph) ∧ Failing m (n - 1) s.record ∧ 1 ≤ n)
    (fun _ => hstable _) (fun _ => hstable _) (hstable _) (fun s hs => ?_) ?_ ?_ ?_
  · exact ⟨Or.inl hs, ⟨s.record, [], (List.append_nil _).symm, rfl, nofun⟩, Nat.le_refl 1⟩
  · rintro n s - hlate - hintime -
    rw [show t.environment.expired s = t.late s.record.length from rfl, hintime] at hlate
    cases hlate
  · exact fun n s _ _ hs => ⟨id, hs⟩
  · rintro n s ⟨hs, hfailing, hn⟩
    have hnext : Q (s.graph.mutate m).2 := hs.elim (hstep _) (hagain _)
    have hfailed : ∀ (fate : Fate) (e : StoreError) (s' : TroubledStore),
        s'.record = s.record ++ [(.mutation m, fate)] → fate.error? = some e →
        (P s'.graph ∨ Q s'.graph) →
        if retry.shouldRetry e n then
          (P s'.graph ∨ Q s'.graph) ∧ Failing m (n + 1 - 1) s'.record ∧ 1 ≤ n + 1
        else Overtaxed retry t s' := by
      intro fate e s' hrecord hfate hs'
      have hfailing' : Failing m n s'.record := by
        have h : Failing m (n - 1 + 1) (s.record ++ [(.mutation m, fate)]) :=
          hfailing.next (by rw [hfate]; nofun)
        rwa [hrecord, ← Nat.sub_add_cancel hn]
      by_cases hagain : retry.shouldRetry e n = true
      · rw [if_pos hagain]
        exact ⟨hs', hfailing', by omega⟩
      · rw [if_neg hagain]
        refine hfailing'.overtaxed ?_ hfate hagain
        rw [hrecord]
        exact List.mem_append_right _ List.mem_cons_self
    have hcalled := t.called .mutation (.of .cypher (.mutation m)) s
    generalize t.environment.call .mutation (.of .cypher (.mutation m)) s = result at hcalled ⊢
    obtain ⟨reply, hcall⟩ := call_mutation s.graph (Or.inl rfl : Sends .mutation) m
      (Statement.of .cypher (.mutation m)).text
    have hgraph : s.graph.call .mutation (.of .cypher (.mutation m)) =
        (.ok reply, (s.graph.mutate m).2) := hcall
    cases hcalled with
    | carriedOut =>
        rw [hgraph]
        exact ⟨fun _ => hkeeps _ hnext, hnext⟩
    | refused e => exact ⟨id, hfailed (.refused e) e _ rfl rfl hs⟩
    | cutOff e =>
        rw [hgraph]
        exact ⟨fun _ => hkeeps _ hnext, hfailed (.cutOff e) e _ rfl rfl (Or.inr hnext)⟩

/-- A store in trouble serves a backend that repeats mutations. -/
theorem serves_trouble (keeps : Graph → Prop) (t : Trouble) (retry : RetryPolicy)
    (key : HierarchyKey) (codeList : Id) :
    Serves t.environment TroubledStore.graph keeps (Overtaxed retry t) (.cypher retry) key
      codeList := by
  have hstable := Sharing.stable_alone fun s : TroubledStore => keeps s.graph
  refine ⟨fun {_ _ _} => copes_repeated keeps, fun {_ _} => copes_repeated keeps, ?_⟩
  intro P m q post hanswer
  refine Copes.call (hstable _) (fun _ => hstable _) (hstable _) fun s hs => ?_
  obtain ⟨reply, hfit, hpost⟩ := hanswer s.graph hs
  have hgraph : s.graph.call m (.of (Backend.cypher retry).reader.dialect (.query q)) =
      (.ok reply, s.graph) := call_query hfit _
  have hfailed : ∀ (fate : Fate) (e : StoreError) (s' : TroubledStore),
      s'.record = s.record ++ [(.query q, fate)] → fate.error? = some e → Overtaxed retry t s' := by
    intro fate e s' hrecord hfate _ _ hmild
    have hnone := hmild.reads (.query q, fate)
      (hrecord ▸ List.mem_append_right _ List.mem_cons_self) rfl
    rw [hfate] at hnone
    cases hnone
  have hcalled := t.called m (.of (Backend.cypher retry).reader.dialect (.query q)) s
  generalize t.environment.call m (.of (Backend.cypher retry).reader.dialect (.query q)) s =
    result at hcalled ⊢
  cases hcalled with
  | carriedOut =>
      rw [hgraph]
      exact ⟨id, hpost⟩
  | refused e => exact ⟨id, hfailed (.refused e) e _ rfl rfl⟩
  | cutOff e =>
      rw [hgraph]
      exact ⟨id, hfailed (.cutOff e) e _ rfl rfl⟩

end Graph

/-! ## Builds from ids hide no failure -/

namespace Backend

theorem hereditary_strict : Hereditary fun _ p => p.run.Strict :=
  ⟨StoreM.strict_pure, StoreM.strict_bind⟩

/-- Building from ids is strict. -/
theorem strict_buildFromIds (reading writing : BatchScheduler) (cloneOrder : Bool)
    (key : HierarchyKey) (codeList : Id) :
    ((gremlin reading writing).buildFromIds cloneOrder key codeList).run.Strict :=
  hereditary_strict.buildFromIds reading writing cloneOrder key codeList
    (StoreM.strict_call _ _) (fun _ => StoreM.strict_callAll _ _ _ _)
    (fun _ => StoreM.strict_callAll _ _ _ _) (StoreM.strict_call _ _) (StoreM.strict_call _ _)
    fun m _ statements _ => StoreM.strict_sendAll writing m statements

end Backend

/-! ## No build succeeds in part -/

namespace Graph

/-- A build in bulk that succeeds with a store in trouble has made the wanted hierarchy, and it does
succeed unless more has gone wrong than repeating can make good. -/
theorem yields_repeatedBuild (retry : RetryPolicy) (key : HierarchyKey) (codeList : Id)
    (t : Trouble) {g : Graph} (hfresh : g.Fresh)
    (hfree : ∀ id, g.label? id ≠ some (NodeLabel.hierarchy key)) :
    t.environment.Yields ((Backend.cypher retry).buildBulk key codeList).run ⟨g, []⟩
      (Ends (fun report s => report = g.bulkReport key codeList ∧ Halfway key codeList g
        (· = g.instanceOf (g.dataCodes (NodeLabel.data key)) codeList) s.graph)
        (Overtaxed retry t)) := by
  have hstart : Stage {NodeLabel.hierarchy key} (NodeLabel.hierarchy key) g Picture.empty g :=
    .start hfresh (fun K hK => hK ▸ hfree) rfl
  have hleft : LeftBehind key codeList g g :=
    ⟨hstart.sound, .refl key codeList g, Picture.empty, hstart.shows, .empty _ _ _ _⟩
  exact (copes_buildBulk (serves_trouble _ t retry key codeList) ⟨g, []⟩ hleft).yields

/-- Whatever happens to the calls of a build and whenever the deadline passes, a build that succeeds
gives a report, and leaves a hierarchy, that it gives and leaves when nothing goes wrong.  A backend
that repeats mutations succeeds when only passing errors are met, none by reads, and no mutation
meets as many in a row as it is attempted.

With several workers the builds in which nothing goes wrong differ among themselves, for their calls
take effect in different orders.  So there a build that succeeds is matched with some of them, and no
single one would do for all.  On one thread there is only one, and every build that succeeds is
matched with that. -/
theorem build_in_trouble (b : Backend) (cloneOrder : Bool) (key : HierarchyKey) (codeList : Id)
    (t : Trouble) (g : Graph) (hfresh : g.Fresh)
    (hfree : ∀ id, g.label? id ≠ some (NodeLabel.hierarchy key)) :
    (t.environment.Yields (b.build cloneOrder key codeList).run ⟨g, []⟩ fun r s =>
      (∀ report, r = .ok report → ∃ g',
        ReflTransGen graph.Solo ((b.build cloneOrder key codeList).run, g)
          (.pure (.ok report), g') ∧
        s.graph.outline (NodeLabel.hierarchy key) = g'.outline (NodeLabel.hierarchy key)) ∧
      (∀ retry, b = .cypher retry →
        (∀ e : StoreError, e.isTransient = true → retry.isPassing e = true) →
        (∀ n, t.late n = false) → Mild retry s.record → ∃ report, r = .ok report)) ∧
    (∀ report s, t.environment.run (b.build cloneOrder key codeList).run ⟨g, []⟩ = (.ok report, s) →
      ∃ g', graph.run (b.build cloneOrder key codeList).run g = (.ok report, g') ∧
        s.graph.outline (NodeLabel.hierarchy key) = g'.outline (NodeLabel.hierarchy key)) := by
  cases b with
  | gremlin reading writing =>
      -- nothing has gone wrong in a build that succeeds, so it is a build with the graph alone
      have hbuild : (Backend.gremlin reading writing).build cloneOrder key codeList =
          (Backend.gremlin reading writing).buildFromIds cloneOrder key codeList := rfl
      rw [hbuild]
      have hstrict := Backend.strict_buildFromIds reading writing cloneOrder key codeList
      generalize ((Backend.gremlin reading writing).buildFromIds cloneOrder key codeList).run = p
        at hstrict ⊢
      refine ⟨(hstrict.yields ⟨g, []⟩).imp fun r s hmoves => ⟨?_, nofun⟩, fun report s hrun => ?_⟩
      · exact fun report hok => ⟨s.graph, hmoves report hok, rfl⟩
      · exact ⟨s.graph, hstrict.run hrun, rfl⟩
  | cypher retry =>
      have hbuild : (Backend.cypher retry).build cloneOrder key codeList =
          (Backend.cypher retry).buildBulk key codeList := rfl
      rw [hbuild]
      have hyields := yields_repeatedBuild retry key codeList t hfresh hfree
      obtain ⟨hreport, hstage⟩ := run_buildBulk (.cypher retry) key codeList hfresh hfree
      have hsame : ∀ {s : TroubledStore}, Halfway key codeList g
          (· = g.instanceOf (g.dataCodes (NodeLabel.data key)) codeList) s.graph →
          s.graph.outline (NodeLabel.hierarchy key) = (graph.run
            ((Backend.cypher retry).buildBulk key codeList).run g).2.outline
              (NodeLabel.hierarchy key) := by
        intro s hs
        obtain ⟨_, hpic, rfl⟩ := hs.shows
        rw [outline_eq hpic (hs.sound.tidy _ rfl),
          outline_eq hstage.shows (hstage.sound.tidy _ rfl)]
      refine ⟨hyields.imp fun r s hend => ⟨?_, ?_⟩, fun report s hrun => ?_⟩
      · rintro report rfl
        obtain ⟨rfl, hs⟩ := hend
        refine ⟨_, ?_, hsame hs⟩
        rw [← hreport]
        exact solo_run _ _
      · rintro _ hretry hpassing hintime hmild
        cases hretry
        cases r with
        | ok report => exact ⟨report, rfl⟩
        | error e => exact absurd hmild (hend hpassing hintime)
      · have hend := hyields.run
        rw [hrun] at hend
        obtain ⟨rfl, hs⟩ := hend
        exact ⟨_, Prod.ext hreport rfl, hsame hs⟩

/-- The second call, which clones the code list, is cut off: it takes effect and is answered with a
passing error. -/
def secondCutOff : Trouble where
  fate n := if n = 1 then .cutOff (.transient "connection reset") else .carriedOut
  late _ := false

theorem build_in_trouble_twoCodes :
    (secondCutOff.environment.Yields
      ((Backend.cypher .standard).build true ⟨"i", "x"⟩ "list").run ⟨twoCodes, []⟩ fun r s =>
      (∀ report, r = .ok report → ∃ g',
        ReflTransGen graph.Solo (((Backend.cypher .standard).build true ⟨"i", "x"⟩ "list").run,
          twoCodes) (.pure (.ok report), g') ∧
        s.graph.outline (NodeLabel.hierarchy ⟨"i", "x"⟩) =
          g'.outline (NodeLabel.hierarchy ⟨"i", "x"⟩)) ∧
      (∀ retry, Backend.cypher .standard = .cypher retry →
        (∀ e : StoreError, e.isTransient = true → retry.isPassing e = true) →
        (∀ n, secondCutOff.late n = false) → Mild retry s.record → ∃ report, r = .ok report)) ∧
    (∀ report s, secondCutOff.environment.run
        ((Backend.cypher .standard).build true ⟨"i", "x"⟩ "list").run ⟨twoCodes, []⟩ =
          (.ok report, s) →
      ∃ g', graph.run ((Backend.cypher .standard).build true ⟨"i", "x"⟩ "list").run twoCodes =
          (.ok report, g') ∧
        s.graph.outline (NodeLabel.hierarchy ⟨"i", "x"⟩) =
          g'.outline (NodeLabel.hierarchy ⟨"i", "x"⟩)) :=
  build_in_trouble (.cypher .standard) true ⟨"i", "x"⟩ "list" secondCutOff twoCodes twoCodes_fresh
    (label?_ne_of_ids (by decide +kernel))

end Graph
end InstanceHierarchy
