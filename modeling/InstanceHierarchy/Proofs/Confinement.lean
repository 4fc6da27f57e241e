import InstanceHierarchy.Proofs.BatchedItems
import InstanceHierarchy.Proofs.SourceLookup
import InstanceHierarchy.Proofs.Surroundings
import InstanceHierarchy.Proofs.TroubledStores

/-!
# What builds leave alone

A build makes mutations that befit it, whatever happens to its calls: it names its own hierarchy
wherever a hierarchy is named, it links nodes to codes only after it has cloned them, and it counts
the children of the nodes that it has been told to be those of its hierarchy.  So what is out of its
reach is as it was wherever the build is stopped, at its end or at a call that fails.
-/

namespace InstanceHierarchy

open Relation Environment

/-- How a build goes about: in bulk, or from ids, with places or without. -/
inductive Course where
  | bulk
  | fromIds (placing : Bool)

namespace Course

/-- Whether places are given. -/
def placing : Course → Bool
  | bulk => false
  | fromIds placing => placing

end Course

/-- Build a hierarchy in a certain way. -/
def Backend.follow (b : Backend) (key : HierarchyKey) (codeList : Id) :
    Course → StoreM BuildReport
  | .bulk => b.buildBulk key codeList
  | .fromIds placing => b.buildFromIds placing key codeList

/-- By the record, a call that was carried out has cloned the source for the hierarchy. -/
def ClonedFor (key : HierarchyKey) (codeList : Id) (record : List (Operation × Fate)) (s : Id) :
    Prop :=
  ∃ ids hasData, (.mutation (.cloneSources key codeList ids hasData), .carriedOut) ∈ record ∧
    s ∈ ids

theorem ClonedFor.append {key : HierarchyKey} {codeList : Id} {record : List (Operation × Fate)}
    {s : Id} (h : ClonedFor key codeList record s) (more : List (Operation × Fate)) :
    ClonedFor key codeList (record ++ more) s := by
  obtain ⟨ids, hasData, hmem, hs⟩ := h
  exact ⟨ids, hasData, List.mem_append_left _ hmem, hs⟩

namespace Graph

/-- A call, whatever its method, carries out the operation of its statement. -/
theorem call_snd (g : Graph) (m : Method) (st : Statement) :
    (g.call m st).2 = (g.perform st.operation).2 := by
  unfold call
  cases g.perform st.operation with
  | mk outcome g' =>
      simp only
      split <;> rfl

variable {start : Graph} {key : HierarchyKey} {codeList : Id} {spared : String → Bool}
  {placing : Prop} {t : Trouble} {m : Method} {st : Statement} {s : TroubledStore} {g : Graph}

/-- What a build of a hierarchy keeps. -/
def Safe (start : Graph) (key : HierarchyKey) (codeList : Id) (spared : String → Bool)
    (placing : Prop) (s : TroubledStore) : Prop :=
  Confined start (NodeLabel.hierarchy key) codeList (ClonedFor key codeList s.record) spared
    placing s.graph

/-- The operation is a query, or a mutation that befits the build. -/
def Fits (key : HierarchyKey) (codeList : Id) (spared : String → Bool) (placing : Prop)
    (s : TroubledStore) : Operation → Prop
  | .mutation m => s.graph.Befits (NodeLabel.hierarchy key) codeList
      (ClonedFor key codeList s.record) spared placing m
  | .query _ => True

theorem Safe.call (hlabel : spared (NodeLabel.hierarchy key) = false)
    (hfits : Fits key codeList spared placing s st.operation)
    (h : Safe start key codeList spared placing s) :
    Safe start key codeList spared placing (t.environment.call m st s).2 := by
  have hmore : ∀ fate x, ClonedFor key codeList s.record x →
      ClonedFor key codeList (s.record ++ [(st.operation, fate)]) x := fun fate x hx => hx.append _
  have hdone : Confined start (NodeLabel.hierarchy key) codeList (ClonedFor key codeList s.record)
      spared placing (s.graph.call m st).2 := by
    rw [call_snd]
    cases hop : st.operation with
    | mutation mutation =>
        rw [hop] at hfits
        rw [perform_mutation]
        exact Confined.mutate hlabel h hfits
    | query q => exact h
  have hcalled := t.called m st s
  generalize t.environment.call m st s = result at hcalled ⊢
  cases hcalled with
  | carriedOut => exact hdone.mono (hmore _)
  | refused e => exact Confined.mono (hmore _) h
  | cutOff e => exact hdone.mono (hmore _)

/-! ## Calls -/

theorem record_call (t : Trouble) (m : Method) (st : Statement) (s : TroubledStore) :
    ∃ fate, (t.environment.call m st s).2.record = s.record ++ [(st.operation, fate)] := by
  have hcalled := t.called m st s
  generalize t.environment.call m st s = result at hcalled ⊢
  cases hcalled with
  | carriedOut => exact ⟨_, rfl⟩
  | refused e => exact ⟨_, rfl⟩
  | cutOff e => exact ⟨_, rfl⟩

/-- A call is carried out on the graph or leaves it alone, and when it is answered with a reply it
has been carried out. -/
theorem graph_call (t : Trouble) (m : Method) (st : Statement) (s : TroubledStore) :
    (t.environment.call m st s).2.graph = s.graph ∨
      (t.environment.call m st s).2.graph = (s.graph.perform st.operation).2 := by
  have hcalled := t.called m st s
  generalize t.environment.call m st s = result at hcalled ⊢
  cases hcalled with
  | carriedOut => exact Or.inr (call_snd _ _ _)
  | refused e => exact Or.inl rfl
  | cutOff e => exact Or.inr (call_snd _ _ _)

theorem reply_call {reply : m.Reply} (h : (t.environment.call m st s).1 = .ok reply) :
    (s.graph.call m st).1 = .ok reply ∧
      (st.operation, .carriedOut) ∈ (t.environment.call m st s).2.record := by
  have hcalled := t.called m st s
  generalize t.environment.call m st s = result at hcalled h ⊢
  cases hcalled with
  | carriedOut => exact ⟨h, List.mem_append_right _ List.mem_cons_self⟩
  | refused e => cases h
  | cutOff e => cases h

/-! ## Pieces of builds -/

/-- What is to be spared is safe from the program, whatever happens to its calls. -/
def Harmless (t : Trouble) (start : Graph) (key : HierarchyKey) (codeList : Id)
    (spared : String → Bool) (placing : Prop) {α : Type} (p : StoreM α) : Prop :=
  Copes t.environment (.alone (Safe start key codeList spared placing)) (fun _ => True) p
    (fun _ _ => True) fun _ => True

namespace Harmless

variable {α β : Type}

theorem pure (a : α) : Harmless t start key codeList spared placing (Pure.pure a : StoreM α) :=
  Copes.pure (Sharing.stable_alone _ _) fun _ _ => trivial

theorem bind {p : StoreM α} {f : α → StoreM β}
    (hp : Harmless t start key codeList spared placing p)
    (hf : ∀ a, Harmless t start key codeList spared placing (f a)) :
    Harmless t start key codeList spared placing (p >>= f) :=
  Copes.bind (Sharing.stable_alone _ _) hp hf

/-- A harmless program may be followed by one that is told something of its end. -/
theorem of_bind {hold : α → TroubledStore → Prop} {p : StoreM α} {f : α → StoreM β}
    (hp : Copes t.environment (.alone (Safe start key codeList spared placing)) (fun _ => True) p
      hold fun _ => True)
    (hf : ∀ a, Copes t.environment (.alone (Safe start key codeList spared placing)) (hold a) (f a)
      (fun _ _ => True) fun _ => True) :
    Harmless t start key codeList spared placing (p >>= f) :=
  Copes.bind (Sharing.stable_alone _ _) hp hf

end Harmless

section Pieces

variable (hlabel : spared (NodeLabel.hierarchy key) = false) {hold : TroubledStore → Prop}

include hlabel

/-- A call of a kind that fits. -/
theorem spares_call {post : m.Reply → TroubledStore → Prop}
    (hfits : ∀ s, hold s → Fits key codeList spared placing s st.operation)
    (hpost : ∀ s reply, hold s → (s.graph.call m st).1 = .ok reply →
      post reply (t.environment.call m st s).2) :
    Copes t.environment (.alone (Safe start key codeList spared placing)) hold (StoreM.call m st)
      post fun _ => True := by
  have hstable := Sharing.stable_alone (Safe start key codeList spared placing)
  refine Copes.call (hstable _) (fun _ => hstable _) (hstable _) fun s hs => ?_
  refine ⟨Safe.call hlabel (hfits s hs), ?_⟩
  cases hresult : (t.environment.call m st s).1 with
  | ok reply => exact hpost s reply hs (reply_call hresult).1
  | error e => trivial

theorem harmless_call (hfits : ∀ s, Fits key codeList spared placing s st.operation) :
    Harmless t start key codeList spared placing (StoreM.call m st) :=
  spares_call hlabel (fun s _ => hfits s) fun _ _ _ _ => trivial

theorem harmless_ask (r : Reader) (m : Method) (q : Query) :
    Harmless t start key codeList spared placing (r.ask m q) :=
  harmless_call hlabel fun _ => trivial

/-- A mutation that fits at any time may be sent in one attempt or in several. -/
theorem harmless_mutate (b : Backend) (mutation : Mutation)
    (hfits : ∀ s, Fits key codeList spared placing s (.mutation mutation)) :
    Harmless t start key codeList spared placing (b.mutate mutation) := by
  have hstable := Sharing.stable_alone (Safe start key codeList spared placing)
  cases b with
  | gremlin reading writing => exact harmless_call hlabel hfits
  | cypher retry =>
      refine Copes.callRetrying (fun _ _ => True) (fun _ => hstable _) (fun _ => hstable _)
        (hstable _) (fun _ _ => trivial) (fun _ _ _ _ => trivial) (fun _ _ _ _ hs => ⟨id, hs⟩)
        fun n s _ => ⟨Safe.call hlabel (hfits s), ?_⟩
      split
      · trivial
      · split <;> trivial

/-- Finding generic nodes is asking in batches. -/
theorem harmless_resolve (r : Resolver) {query : List String → Query} (codes : List String)
    (hanswer : ∀ (g : Graph) batch, ∃ ids, g.answer (query batch) = .rows (g.idCodeRows ids)) :
    Harmless t start key codeList spared placing (r.resolve query codes) := by
  have hstable := Sharing.stable_alone (Safe start key codeList spared placing)
  unfold Resolver.resolve
  refine Copes.callAll (fun _ _ => True) (fun _ _ => trivial) (fun _ => hstable _)
    (hstable fun _ => True) (fun _ => hstable _) (hstable _) (fun _ _ _ _ => trivial)
    (fun _ s st _ hst => ?_) (fun s st _ hst => ?_) (fun _ _ _ _ _ _ => trivial) fun _ _ => trivial
  · obtain ⟨batch, -, rfl⟩ := List.mem_map.1 hst
    refine ⟨Safe.call hlabel trivial, ?_⟩
    split
    · rename_i reply hreply
      -- whatever is replied has been read from the graph
      obtain ⟨ids, hids⟩ := hanswer s.graph batch
      have hcall : s.graph.call .tabular (.of r.dialect (.query (query batch))) =
          (.ok (s.graph.idCodeRows ids), s.graph) := call_rows hids _
      obtain rfl := Except.ok.inj ((congrArg Prod.fst hcall).symm.trans (reply_call hreply).1)
      exact ⟨_, readRows_idCodeRows s.graph ids, trivial⟩
    · trivial
  · obtain ⟨batch, -, rfl⟩ := List.mem_map.1 hst
    exact ⟨Safe.call hlabel trivial, trivial⟩

/-- Mutations for batches of ids fit if each of them does.  When all have been carried out, there
is a call in the record for every id. -/
theorem spares_mutateIds (writing : BatchScheduler) (m : Method) (ids : TextSet)
    {mutation : List Id → Mutation} (hinj : Function.Injective mutation)
    (hfits : ∀ s batch, hold s → (∀ id ∈ batch, id ∈ ids.toList) →
      Fits key codeList spared placing s (.mutation (mutation batch)))
    (hhold : ∀ s batch, hold s →
      hold (t.environment.call m (.of .gremlin (.mutation (mutation batch))) s).2) :
    Copes t.environment (.alone (Safe start key codeList spared placing)) hold
      (Backend.mutateIds writing m ids mutation)
      (fun _ s => hold s ∧ ∀ id ∈ ids.toList, ∃ batch, id ∈ batch ∧
        (.mutation (mutation batch), .carriedOut) ∈ s.record) fun _ => True := by
  have hstable := Sharing.stable_alone (Safe start key codeList spared placing)
  refine (Copes.mutateIds hinj (fun done s => hold s ∧ ∀ id, done id → ∃ batch, id ∈ batch ∧
      (.mutation (mutation batch), .carriedOut) ∈ s.record)
    (fun _ => hstable _) (hstable hold) (hstable fun _ => True) (fun _ _ hs _ => hs.1)
    (fun done s batch hs hbatch => ?_)
    (fun s batch hs hbatch => ⟨Safe.call hlabel (hfits s batch hs hbatch), hhold s batch hs⟩)
    fun _ _ => trivial).weaken (fun s hs => ⟨hs, nofun⟩) (fun _ _ => id) fun _ => id
  refine ⟨Safe.call hlabel (hfits s batch hs.1 hbatch), ?_⟩
  cases hresult : (t.environment.call m (.of .gremlin (.mutation (mutation batch))) s).1 with
  | ok reply =>
      refine ⟨hhold s batch hs.1, fun id hid => ?_⟩
      obtain ⟨fate, hrecord⟩ := record_call t m (.of .gremlin (.mutation (mutation batch))) s
      rcases hid with hid | hid
      · obtain ⟨batch', hmem, hdone⟩ := hs.2 id hid
        exact ⟨batch', hmem, hrecord ▸ List.mem_append_left _ hdone⟩
      · exact ⟨batch, hid, (reply_call hresult).2⟩
  | error e => exact hhold s batch hs.1

theorem harmless_mutateIds (writing : BatchScheduler) (m : Method) (ids : TextSet)
    {mutation : List Id → Mutation} (hinj : Function.Injective mutation)
    (hfits : ∀ s batch, Fits key codeList spared placing s (.mutation (mutation batch))) :
    Harmless t start key codeList spared placing (Backend.mutateIds writing m ids mutation) :=
  (spares_mutateIds hlabel writing m ids hinj (fun s batch _ _ => hfits s batch)
    fun _ _ => id).weaken (fun _ => id) (fun _ _ _ => trivial) fun _ => id

end Pieces

/-! ## Bulk builds -/

section Builds

variable (hlabel : spared (NodeLabel.hierarchy key) = false)

include hlabel

theorem harmless_buildBulk (b : Backend) :
    Harmless t start key codeList spared placing (b.buildBulk key codeList) := by
  have hmutate : ∀ (b : Backend) (m : Mutation), m.IsStepOn key →
      Harmless t start key codeList spared placing (b.mutate m) := by
    intro b m hm
    refine harmless_mutate hlabel b m fun s => ?_
    cases m <;> first | exact congrArg NodeLabel.hierarchy hm | exact hm.elim
  have hrelate : Harmless t start key codeList spared placing (b.relateList key codeList) := by
    cases b with
    | gremlin reading writing =>
        have hcall : Harmless t start key codeList spared placing
            (StoreM.call .edges (.of .gremlin (.mutation (.relateList key codeList)))) :=
          harmless_call hlabel fun _ => rfl
        exact hcall.bind fun _ => .pure ()
    | cypher retry => exact hmutate (.cypher retry) (.relateList key codeList) rfl
  have hparts : Hereditary fun _ p => Harmless t start key codeList spared placing p :=
    ⟨Harmless.pure, Harmless.bind⟩
  exact hparts.buildBulk b key codeList (hmutate b) hrelate (harmless_ask hlabel _ _ _)
    (harmless_ask hlabel _ _ _)

/-! ## Builds from ids -/

omit hlabel in
/-- Sources are known to have been cloned. -/
def Known (key : HierarchyKey) (codeList : Id) (X : Id → Prop) (s : TroubledStore) : Prop :=
  ∀ id, X id → ClonedFor key codeList s.record id

omit hlabel in
theorem Known.call {X : Id → Prop} (h : Known key codeList X s) :
    Known key codeList X (t.environment.call m st s).2 := by
  obtain ⟨fate, hrecord⟩ := record_call t m st s
  intro id hid
  rw [hrecord]
  exact (h id hid).append _

omit hlabel in
/-- What holds whether a program has succeeded or not. -/
theorem ends_const {α : Type} {hold : TroubledStore → Prop} (h : hold s)
    (r : Except StoreError α) : Ends (fun _ => hold) hold r s := by
  cases r <;> exact h

variable (reading writing : BatchScheduler)

theorem spares_cloneSources (X : Id → Prop) (ids : TextSet) (hasData : Bool) :
    Copes t.environment (.alone (Safe start key codeList spared placing)) (Known key codeList X)
      ((Backend.gremlin reading writing).cloneSources key codeList ids hasData)
      (fun _ => Known key codeList fun id => X id ∨ id ∈ ids.toList) fun _ => True := by
  refine (spares_mutateIds hlabel writing .mutation ids
    (Mutation.cloneSources_injective key codeList hasData) (fun _ _ _ _ => rfl)
    fun _ _ hs => hs.call).weaken (fun _ => id) ?_ fun _ => id
  rintro - s ⟨hs, hdone⟩ id (hid | hid)
  · exact hs id hid
  · obtain ⟨batch, hmem, hrecord⟩ := hdone id hid
    exact ⟨batch, hasData, hrecord, hmem⟩

theorem spares_relateSources (X : Id → Prop) (ids : TextSet) :
    Copes t.environment (.alone (Safe start key codeList spared placing)) (Known key codeList X)
      ((Backend.gremlin reading writing).relateSources key ids)
      (fun _ => Known key codeList X) fun _ => True :=
  (spares_mutateIds hlabel writing .edges ids (Mutation.relateSources_injective key)
    (fun _ _ _ _ => rfl) fun _ _ hs => hs.call).weaken (fun _ => id) (fun _ _ hs => hs.1)
    fun _ => id

/-- Sources are linked to codes when they are known to have been cloned. -/
theorem spares_linkCodes {X : Id → Prop} {codes : CodesById} (hX : ∀ e ∈ codes.entries, X e.1) :
    Copes t.environment (.alone (Safe start key codeList spared placing)) (Known key codeList X)
      ((Backend.gremlin reading writing).linkCodes codeList codes) (fun _ _ => True)
      fun _ => True := by
  have hstable := Sharing.stable_alone (Safe start key codeList spared placing)
  have hcall : ∀ (s : TroubledStore) (e : Id × String), Known key codeList X s →
      e ∈ codes.entries →
      ((Sharing.alone (Safe start key codeList spared placing)).guar s (t.environment.call .mutation
        (.of .gremlin (.mutation (.linkCode codeList e.1 e.2))) s).2) ∧
      Known key codeList X (t.environment.call .mutation
        (.of .gremlin (.mutation (.linkCode codeList e.1 e.2))) s).2 :=
    fun s e hs he => ⟨Safe.call hlabel ⟨rfl, hs e.1 (hX e he)⟩, hs.call⟩
  refine Copes.sendEach (statement_injective (Mutation.linkCode_injective codeList))
    (fun _ => Known key codeList X) (fun _ => id) (fun _ => hstable _)
    (hstable (Known key codeList X)) (hstable _) (hstable _) (fun _ _ hs _ => hs)
    (fun _ s e hs he => ⟨(hcall s e hs he).1, ?_⟩) hcall (fun _ _ _ _ => trivial)
    fun _ _ => trivial
  exact ends_const (hcall s e hs he).2 _

/-- The ids of the nodes of the hierarchy are not those of nodes that are to be spared. -/
theorem spares_nodeIds :
    Copes t.environment (.alone (Safe start key codeList spared placing)) (fun _ => True)
      ((Backend.gremlin reading writing).nodeIds key)
      (fun ids s => ∀ id ∈ ids.toList, s.graph.among spared id = false) fun _ => True := by
  have hstable := Sharing.stable_alone (Safe start key codeList spared placing)
  have hask : Copes t.environment (.alone (Safe start key codeList spared placing)) (fun _ => True)
      ((Backend.gremlin reading writing).reader.ask .strings (.nodeIds key))
      (fun ids s => ∀ id ∈ ids, s.graph.among spared id = false) fun _ => True := by
    refine spares_call hlabel (fun _ _ => trivial) fun s reply _ hreply => ?_
    have hcall : s.graph.call .strings (.of .gremlin (.query (.nodeIds key))) =
        (.ok (s.graph.idsWithLabel (NodeLabel.hierarchy key)), s.graph) := call_query rfl _
    obtain rfl := Except.ok.inj ((congrArg Prod.fst hcall).symm.trans hreply)
    intro id hid
    have hnot := among_of_label hlabel (mem_idsWithLabel.1 hid)
    rcases graph_call t .strings (.of .gremlin (.query (.nodeIds key))) s with hgraph | hgraph
    · exact hgraph ▸ hnot
    · exact hgraph ▸ hnot
  exact Copes.bind (hstable fun _ => True) hask fun ids => Copes.pure (hstable _)
    fun s hs id hid => hs id (TextSet.mem_ofList.1 hid)

/-- Children of nodes that are not to be spared are counted, and such nodes they remain. -/
theorem spares_countChildrenOf (ids : TextSet) :
    Copes t.environment (.alone (Safe start key codeList spared placing))
      (fun s => ∀ id ∈ ids.toList, s.graph.among spared id = false)
      ((Backend.gremlin reading writing).countChildrenOf ids) (fun _ _ => True) fun _ => True := by
  refine (spares_mutateIds hlabel writing .mutation ids Mutation.countChildrenOf_injective
    (fun s batch hs hbatch id hid => hs id (hbatch id hid)) ?_).weaken (fun _ => id)
    (fun _ _ _ => trivial) fun _ => id
  intro s batch hs id hid
  rcases graph_call t .mutation (.of .gremlin (.mutation (.countChildrenOf batch))) s with
    hgraph | hgraph
  · rw [hgraph]
    exact hs id hid
  · have hlabels := (countChildren_rewrites s.graph batch).label id
    rw [hgraph]
    exact (among_congr hlabels).trans (hs id hid)

/-- The end of a build from ids is harmless whatever went before. -/
theorem harmless_settle (ids : TextSet) (makeReport : Int → BuildReport) :
    Harmless t start key codeList spared placing (do
      (Backend.gremlin reading writing).unlinkSources ids
      let clones ← (Backend.gremlin reading writing).nodeIds key
      (Backend.gremlin reading writing).countChildrenOf clones
      let nodeCount ← (Backend.gremlin reading writing).reader.countNodes key
      return makeReport nodeCount) := by
  have hunlink : Harmless t start key codeList spared placing
      ((Backend.gremlin reading writing).unlinkSources ids) :=
    harmless_mutateIds hlabel writing .mutation ids Mutation.unlinkSources_injective
      fun _ _ => trivial
  refine hunlink.bind fun _ => ?_
  refine Harmless.of_bind (spares_nodeIds hlabel reading writing) fun clones => ?_
  refine Copes.bind (Sharing.stable_alone _ _)
    (spares_countChildrenOf hlabel reading writing clones) fun _ => ?_
  exact (harmless_ask hlabel (Backend.gremlin reading writing).reader .count
    (.countNodes key)).bind fun _ => .pure _

omit hlabel in
/-- What two tables hold together, one of them holds. -/
theorem mem_union {codes codes' : CodesById} {e : Id × String}
    (he : e ∈ (codes.union codes').entries) :
    e.1 ∈ codes.keySet.toList ∨ e.1 ∈ codes'.keySet.toList := by
  have hget := Table.get?_eq_some_iff.2 he
  rw [Table.get?_union_or, Option.or_eq_some_iff] at hget
  rw [Table.mem_keySet, Table.mem_keySet, Table.mem_keys, Table.mem_keys]
  rcases hget with hget | ⟨-, hget⟩
  · exact Or.inr ⟨_, hget⟩
  · exact Or.inl ⟨_, hget⟩

theorem harmless_buildFromIds (b : Backend) (placed : Bool) (hplacing : placed = true → placing) :
    Harmless t start key codeList spared placing (b.buildFromIds placed key codeList) := by
  have hdata : Harmless t start key codeList spared placing (b.reader.dataCodes key) :=
    harmless_ask hlabel _ _ _
  cases b with
  | cypher retry =>
      -- the build fails when it has asked for the codes with data
      exact hdata.bind fun codes s _ s' _ => trivial
  | gremlin reading writing =>
      unfold Backend.buildFromIds
      refine hdata.bind fun codes => ?_
      refine Harmless.bind (harmless_resolve hlabel _ codes fun g batch => ⟨_, rfl⟩)
        fun leaves => ?_
      refine Harmless.bind (harmless_resolve hlabel _ codes fun g batch => ⟨_, rfl⟩)
        fun reached => ?_
      have hstable := Sharing.stable_alone (Safe start key codeList spared placing)
      refine Harmless.of_bind ((spares_cloneSources hlabel reading writing (fun _ => False) _
        true).weaken (fun _ _ => nofun) (fun _ _ => id) fun _ => id) fun _ => ?_
      refine Copes.bind (hstable _) (spares_cloneSources hlabel reading writing _ _ false)
        fun _ => ?_
      refine Copes.bind (hstable _) (spares_relateSources hlabel reading writing _ _) fun _ => ?_
      cases placed with
      | false =>
          exact (harmless_settle hlabel reading writing _ _).weaken (fun _ _ => trivial)
            (fun _ _ => id) fun _ => id
      | true =>
          refine Copes.bind (hstable _) (spares_linkCodes hlabel reading writing fun e he => ?_)
            fun _ => ?_
          · exact (mem_union he).imp_left Or.inr
          · have hplace : Harmless t start key codeList spared placing
              ((Backend.gremlin reading writing).copyOrder codeList
                (leaves.union (reached.filter fun id _ => !leaves.contains id)).keySet) :=
              harmless_mutateIds hlabel writing .mutation _ (Mutation.copyOrder_injective codeList)
                fun _ _ => hplacing rfl
            exact hplace.bind fun _ => harmless_settle hlabel reading writing _ _

end Builds

/-! ## Everything outside of the hierarchy -/

/-- Wherever a build is stopped, what was out of its reach is as it was. -/
theorem safe_everywhere (b : Backend) (course : Course)
    (hlabel : spared (NodeLabel.hierarchy key) = false) (hfresh : start.Fresh)
    (hout : start.OutOfReach (NodeLabel.hierarchy key) spared placing)
    (hplacing : course.placing = true → placing) {c : Program (Except StoreError BuildReport) ×
      TroubledStore}
    (hmoves : ReflTransGen t.environment.Solo ((b.follow key codeList course).run, ⟨start, []⟩) c) :
    Safe start key codeList spared placing c.2 := by
  have hharmless : Harmless t start key codeList spared placing (b.follow key codeList course) := by
    cases course with
    | bulk => exact harmless_buildBulk hlabel b
    | fromIds placed => exact harmless_buildFromIds hlabel b placed hplacing
  have hstart : Safe start key codeList spared placing ⟨start, []⟩ := Confined.refl _ hfresh hout
  exact Assures.kept (hharmless ⟨start, []⟩ trivial) hstart hmoves

/-- The labels of nodes that are not of the hierarchy. -/
def others (key : HierarchyKey) (l : String) : Bool := l ≠ NodeLabel.hierarchy key

/-- The nodes with other labels than the hierarchy's are those at the start, and so are the edges
between them, but for links from nodes that have been cloned to codes of the code list. -/
structure OthersKept (key : HierarchyKey) (codeList : Id) (start : Graph) (s : TroubledStore) :
    Prop where
  nodes : ∀ id v, v.label ≠ NodeLabel.hierarchy key →
    (s.graph.nodes.get? id = some v ↔ start.nodes.get? id = some v)
  edges : ∃ added, s.graph.edges.filter (s.graph.between (others key)) =
      start.edges.filter (start.between (others key)) ++ added ∧
    ∀ e ∈ added, e.label = EdgeLabel.hasCode ∧ ClonedFor key codeList s.record e.source ∧
      start.label? e.target = some (NodeLabel.code codeList)

/-- A build leaves everything outside of its hierarchy alone, wherever it is stopped and whatever
happens to its calls, if no chain of parent edges leads out of the hierarchy and all clone edges
leave nodes of it. -/
theorem follow_keeps_others (b : Backend) (course : Course) (t : Trouble) (key : HierarchyKey)
    (codeList : Id) (g : Graph) (hfresh : g.Fresh)
    (habove : ∀ a b l, g.label? a = some (NodeLabel.hierarchy key) → TransGen g.Up a b →
      g.label? b = some l → l = NodeLabel.hierarchy key)
    (hlinked : ∀ a s, g.Joined EdgeLabel.cloneOf a s →
      g.label? a = some (NodeLabel.hierarchy key)) :
    ∀ c, ReflTransGen t.environment.Solo ((b.follow key codeList course).run, ⟨g, []⟩) c →
      OthersKept key codeList g c.2 := by
  have hlabel : others key (NodeLabel.hierarchy key) = false := decide_eq_false fun h => h rfl
  have hout : g.OutOfReach (NodeLabel.hierarchy key) (others key) True := by
    refine ⟨fun a b ha hchain => ?_, fun _ a s hlink => among_of_label hlabel (hlinked a s hlink)⟩
    refine Bool.eq_false_iff.2 fun hamong => ?_
    obtain ⟨l, hl, hother⟩ := among_iff.1 hamong
    exact of_decide_eq_true hother (habove a b l ha hchain hl)
  intro c hmoves
  have hsafe := safe_everywhere b course hlabel hfresh hout (fun _ => trivial) hmoves
  exact ⟨fun id v hv => hsafe.nodes id v (decide_eq_true hv), hsafe.edges trivial⟩

/-- Where no parent edge leaves the hierarchy no chain does. -/
theorem above_of_edges {label : String}
    (h : ∀ e ∈ g.edges, e.label = EdgeLabel.hasParent → g.label? e.source ≠ some label)
    (a b : Id) (l : String) (ha : g.label? a = some label) (hchain : TransGen g.Up a b)
    (_ : g.label? b = some l) : l = label := by
  obtain ⟨p, hup, -⟩ := TransGen.head'_iff.1 hchain
  obtain ⟨e, he, hl, rfl, -⟩ := joined_iff.1 hup
  exact absurd ha (h e he hl)

theorem linked_of_edges {label : String}
    (h : ∀ e ∈ g.edges, e.label = EdgeLabel.cloneOf → g.label? e.source = some label) (a s : Id)
    (hlink : g.Joined EdgeLabel.cloneOf a s) : g.label? a = some label := by
  obtain ⟨e, he, hl, rfl, -⟩ := joined_iff.1 hlink
  exact h e he hl

/-- A generic hierarchy of two nodes with a code, of which one has been cloned by a build that was
broken off. -/
def brokenOff : Graph where
  nodes := Table.ofList
    [("a", ⟨NodeLabel.generic "list", Table.ofList [(Property.code, .str "all")]⟩),
      ("b", ⟨NodeLabel.generic "list", Table.ofList [(Property.code, .str "part")]⟩),
      ("c", ⟨NodeLabel.code "list", Table.ofList [(Property.value, .str "part")]⟩),
      ("k", ⟨NodeLabel.hierarchy ⟨"i", "x"⟩, Table.ofList [(Property.code, .str "part")]⟩),
      ("l", ⟨NodeLabel.codeList "list", .empty⟩),
      ("x", ⟨NodeLabel.data ⟨"i", "x"⟩, Table.ofList [(Property.value, .str "part")]⟩)]
  edges :=
    [⟨⟨"d", EdgeLabel.hasParent, "b", "a"⟩, .empty⟩, ⟨⟨"e", EdgeLabel.cloneOf, "k", "b"⟩, .empty⟩,
      ⟨⟨"f", EdgeLabel.usedBy, "c", "l"⟩, Table.ofList [(Property.order, .int 1)]⟩]
  supply := ⟨longerAndLonger 2, 0⟩

/-- The second call is refused. -/
def secondRefused : Trouble where
  fate n := if n = 1 then .refused (.transient "connection reset") else .carriedOut
  late _ := false

theorem follow_keeps_others_brokenOff :
    brokenOff.Fresh ∧ ∀ c, ReflTransGen secondRefused.environment.Solo
        (((Backend.gremlin (.of 1 2) (.of 1 2)).follow ⟨"i", "x"⟩ "list" (.fromIds true)).run,
          ⟨brokenOff, []⟩) c →
      OthersKept ⟨"i", "x"⟩ "list" brokenOff c.2 := by
  have hfresh : brokenOff.Fresh :=
    fresh_of_short rfl (by decide +kernel) (by decide +kernel)
  exact ⟨hfresh, follow_keeps_others (.gremlin (.of 1 2) (.of 1 2)) (.fromIds true) secondRefused
    ⟨"i", "x"⟩ "list" brokenOff hfresh (above_of_edges (by decide +kernel))
    (linked_of_edges (by decide +kernel))⟩

/-- A clone from which a chain of parent edges leads to a generic node, by an id that no node
has. -/
def throughMissing : Graph where
  nodes := Table.ofList
    [("b", ⟨NodeLabel.generic "list", Table.ofList [(Property.code, .str "all")]⟩),
      ("k", ⟨NodeLabel.hierarchy ⟨"i", "x"⟩,
        Table.ofList [(Property.code, .str "part"), (Property.hasData, .bool true)]⟩)]
  edges :=
    [⟨⟨"d", EdgeLabel.hasParent, "k", "m"⟩, .empty⟩,
      ⟨⟨"e", EdgeLabel.hasParent, "m", "b"⟩, .empty⟩]
  supply := ⟨longerAndLonger 2, 0⟩

/-- Marks are set along chains of parent edges, so a chain that leaves the hierarchy by an id that
no node has takes a mark to a node outside; no single parent edge leads there. -/
theorem buildBulk_marks_through_missing :
    throughMissing.Fresh ∧
    (∀ a b l, throughMissing.label? a = some (NodeLabel.hierarchy ⟨"i", "x"⟩) →
      throughMissing.Up a b → throughMissing.label? b = some l →
      l = NodeLabel.hierarchy ⟨"i", "x"⟩) ∧
    (∀ a s, throughMissing.Joined EdgeLabel.cloneOf a s →
      throughMissing.label? a = some (NodeLabel.hierarchy ⟨"i", "x"⟩)) ∧
    throughMissing.label? "b" = some (NodeLabel.generic "list") ∧
    (graph.run ((Backend.gremlin (.of 1 2) (.of 1 2)).buildBulk ⟨"i", "x"⟩ "list").run
      throughMissing).2.nodes.get? "b" ≠ throughMissing.nodes.get? "b" := by
  have hedges : ∀ e ∈ throughMissing.edges, e.label = EdgeLabel.hasParent →
      throughMissing.label? e.source = some (NodeLabel.hierarchy ⟨"i", "x"⟩) →
      throughMissing.label? e.target = none := by decide +kernel
  refine ⟨fresh_of_short rfl (by decide +kernel) (by decide +kernel), fun a b l ha hup hb => ?_,
    linked_of_edges (by decide +kernel), by decide +kernel, fun h => ?_⟩
  · obtain ⟨e, he, hl, rfl, rfl⟩ := joined_iff.1 hup
    rw [hedges e he hl ha] at hb
    cases hb
  · have hmarks := congrArg (Option.map fun v => (v.properties.get? Property.remain).isSome) h
    exact absurd hmarks (by decide +kernel)

end Graph
end InstanceHierarchy
