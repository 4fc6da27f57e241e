import InstanceHierarchy.Proofs.CallTrail

/-!
# The hierarchy that a trail leaves

The picture of a hierarchy that is built from ids, at every moment before its children are counted,
follows from how far the build has come with each source: the clones, their places, the parent edges
and the links.  The mutations of such builds, also those of others, take one of these pictures to
another one.
-/

namespace InstanceHierarchy

open Trail

/-- How far a build has come with the sources. -/
@[ext] structure Progress where
  cloned : Id → Prop
  linked : Id → Prop
  placed : Id → Prop
  mirrored : Id → Id → Prop

namespace Progress

/-- How far the build of the hierarchy with a label has come after some calls. -/
def ofLog (label : String) (log : List Received) : Progress :=
  ⟨Cloned label log, Linked label log, Placed label log, Mirrored label log⟩

/-- Only cloned sources have been given places. -/
def Sensible (p : Progress) : Prop := ∀ s, p.placed s → p.cloned s

end Progress

/-- How far a build has come after one more call. -/
theorem Progress.ofLog_append (label : String) (log : List Received) (e : Received) :
    ofLog label (log ++ [e]) =
      { cloned := fun s => Cloned label log s ∨ e.Clones label s
        linked := fun s => e.Clones label s ∨ (Linked label log s ∧ ¬ e.Unlinks s)
        placed := fun s => Placed label log s ∨ (e.Places s ∧ Linked label log s)
        mirrored := fun s t => Mirrored label log s t ∨
          (e.Relates label s ∧ Linked label log s ∧ Linked label log t) } := by
  apply Progress.ext
  · funext s
    exact propext cloned_append
  · funext s
    exact propext linked_append
  · funext s
    exact propext once_append
  · funext s t
    exact propext once_append

theorem sensible_ofLog (label : String) (log : List Received) :
    (Progress.ofLog label log).Sensible := fun _ h => h.cloned

/-- What a build from ids sets out with. -/
structure Plan where
  start : Graph
  codeList : Id

namespace Plan

variable (P : Plan)

/-- The generic nodes of the code list. -/
def sources : List Node := P.start.nodesWithLabel (NodeLabel.generic P.codeList)

/-- The graph at the start with a source linked to its code. -/
def withCode (s : Id) : Graph :=
  match P.start.node? s with
  | some n => P.start.linkCode P.codeList s n.cloneCode
  | none => P.start

/-- The place of a source once it is linked to its code. -/
def place (s : Id) : Option Json := (P.withCode s).orderOf? P.codeList s

/-- The properties of a clone with the place of its source, if that has one. -/
noncomputable def withPlace (s : Id) (ps : Properties) : Properties :=
  match P.place s with
  | some order => ps.insert Property.order order
  | none => ps

open Classical in
/-- The properties of the clone of a source before its children are counted. -/
noncomputable def cloneProperties (data : Id → Bool) (p : Progress) (n : Node) : Properties :=
  let bare := Graph.cloneProperties n n.cloneCode P.codeList (data n.id)
  if p.placed n.id then P.withPlace n.id bare else bare

open Classical in
/-- The picture of a hierarchy at some progress, when it is given which sources have data. -/
noncomputable def sketch (data : Id → Bool) (p : Progress) : Picture where
  properties c := (P.start.source? (NodeLabel.generic P.codeList) c).bind fun n =>
    if p.cloned n.id then some (P.cloneProperties data p n) else none
  parent c d := ∃ n ∈ P.sources, ∃ m ∈ P.sources, p.mirrored n.id m.id ∧ P.start.Up n.id m.id ∧
    n.cloneCode = c ∧ m.cloneCode = d
  link c s := ∃ n ∈ P.sources, n.id = s ∧ n.cloneCode = c ∧ p.linked s

/-- What a call does to the picture of the hierarchy with a label, counting excepted. -/
noncomputable def applied (label : String) : Operation → Picture → Picture
  | .mutation (.cloneSources key _ ids hasData) =>
      Graph.onlyOn (NodeLabel.hierarchy key)
        (Picture.clone P.codeList hasData (P.start.records ids)) label
  | .mutation (.relateSources key ids) =>
      Graph.onlyOn (NodeLabel.hierarchy key) (Picture.relate P.start.Up ids) label
  | .mutation (.copyOrder _ ids) => Picture.placeAll P.place ids
  | .mutation (.unlinkSources ids) => Picture.unlink (· ∈ ids)
  | _ => id

/-- A cloning call for the hierarchy with a label clones generic nodes of the code list, as nodes
with data or without. -/
def Follows (data : Id → Bool) (label : String) (op : Operation) : Prop :=
  ∀ key codeList ids hasData, op = .mutation (.cloneSources key codeList ids hasData) →
    NodeLabel.hierarchy key = label → codeList = P.codeList ∧
      ∀ s ∈ ids, (∃ n ∈ P.sources, n.id = s) ∧ data s = hasData

variable {P} {data : Id → Bool}

theorem mem_sources {n : Node} : n ∈ P.sources ↔
    n.label = NodeLabel.generic P.codeList ∧ P.start.nodes.get? n.id = some n.vertex :=
  Graph.mem_nodesWithLabel

/-- A source is known by its id. -/
theorem sources_inj {n m : Node} (hn : n ∈ P.sources) (hm : m ∈ P.sources) (h : n.id = m.id) :
    n = m := Graph.nodesWithLabel_inj hn hm h

variable (hP : P.start.DistinctCodes (NodeLabel.generic P.codeList))

include hP

/-- A source is known by its code. -/
theorem code_inj {n m : Node} (hn : n ∈ P.sources) (hm : m ∈ P.sources)
    (h : n.cloneCode = m.cloneCode) : n = m := by
  have hnc := (hP.cloneCode_iff hn).1 rfl
  have hmc := (hP.cloneCode_iff hm).1 h.symm
  exact sources_inj hn hm (hP.unique _ n.id m.id hnc hmc)

theorem source?_of_mem {n : Node} (hn : n ∈ P.sources) :
    P.start.source? (NodeLabel.generic P.codeList) n.cloneCode = some n := by
  have hsome := Graph.source?_isSome.2 ⟨n, hn, rfl⟩
  obtain ⟨m, hm⟩ := Option.isSome_iff_exists.1 hsome
  obtain ⟨hmem, hcode⟩ := Graph.source?_eq_some hm
  rw [hm, code_inj hP hmem hn hcode]

/-- A clone is linked to its own source at most. -/
theorem link_sketch {p : Progress} {n : Node} (hn : n ∈ P.sources) {s : Id} :
    (P.sketch data p).link n.cloneCode s ↔ s = n.id ∧ p.linked s := by
  constructor
  · rintro ⟨m, hm, rfl, hcode, hlinked⟩
    rw [code_inj hP hm hn hcode] at hlinked ⊢
    exact ⟨rfl, hlinked⟩
  · rintro ⟨rfl, hlinked⟩
    exact ⟨n, hn, rfl, rfl, hlinked⟩

theorem properties_sketch {p : Progress} {n : Node} (hn : n ∈ P.sources) (h : p.cloned n.id) :
    (P.sketch data p).properties n.cloneCode = some (P.cloneProperties data p n) := by
  unfold sketch
  simp only [source?_of_mem hP hn, Option.bind_some, if_pos h]

theorem properties_sketch_of_not {p : Progress} {n : Node} (hn : n ∈ P.sources)
    (h : ¬ p.cloned n.id) : (P.sketch data p).properties n.cloneCode = none := by
  unfold sketch
  simp only [source?_of_mem hP hn, Option.bind_some, if_neg h]

omit hP in
theorem properties_sketch_of_none {p : Progress} {c : String}
    (h : ∀ n ∈ P.sources, n.cloneCode ≠ c) : (P.sketch data p).properties c = none := by
  have hnone : P.start.source? (NodeLabel.generic P.codeList) c = none := by
    cases hsource : P.start.source? (NodeLabel.generic P.codeList) c with
    | none => rfl
    | some n =>
        obtain ⟨hn, hc⟩ := Graph.source?_eq_some hsource
        exact absurd hc (h n hn)
  unfold sketch
  simp only [hnone, Option.bind_none]

theorem isSome_sketch {p : Progress} {c : String} :
    ((P.sketch data p).properties c).isSome ↔ ∃ n ∈ P.sources, p.cloned n.id ∧ n.cloneCode = c := by
  constructor
  · intro hsome
    by_cases h : ∃ n ∈ P.sources, n.cloneCode = c
    · obtain ⟨n, hn, rfl⟩ := h
      refine ⟨n, hn, by_contra fun hnot => ?_, rfl⟩
      rw [properties_sketch_of_not hP hn hnot] at hsome
      cases hsome
    · rw [properties_sketch_of_none fun n hn hc => h ⟨n, hn, hc⟩] at hsome
      cases hsome
  · rintro ⟨n, hn, hcloned, rfl⟩
    rw [properties_sketch hP hn hcloned]
    rfl

/-- Before anything is cloned, linked or related the hierarchy is empty. -/
theorem sketch_eq_empty {p : Progress} (hcloned : ∀ s, ¬ p.cloned s) (hlinked : ∀ s, ¬ p.linked s)
    (hmirrored : ∀ s t, ¬ p.mirrored s t) : P.sketch data p = Picture.empty := by
  apply Picture.ext
  · funext c
    by_contra hne
    obtain ⟨n, -, hn, -⟩ := (isSome_sketch hP).1 (Option.isSome_iff_ne_none.2 hne)
    exact hcloned n.id hn
  · funext c d
    refine propext ⟨?_, False.elim⟩
    rintro ⟨n, -, m, -, hnm, -⟩
    exact hmirrored n.id m.id hnm
  · funext c s
    refine propext ⟨?_, False.elim⟩
    rintro ⟨n, -, -, -, hs⟩
    exact hlinked s hs

omit hP in
/-- Properties are those of a sketch if they agree on every source and there are no others. -/
theorem properties_ext {f : String → Option Properties} {p : Progress}
    (hsource : ∀ n ∈ P.sources, f n.cloneCode = (P.sketch data p).properties n.cloneCode)
    (hnone : ∀ c, (∀ n ∈ P.sources, n.cloneCode ≠ c) → f c = none) :
    f = (P.sketch data p).properties := by
  funext c
  by_cases h : ∃ n ∈ P.sources, n.cloneCode = c
  · obtain ⟨n, hn, rfl⟩ := h
    exact hsource n hn
  · have hne : ∀ n ∈ P.sources, n.cloneCode ≠ c := fun n hn hc => h ⟨n, hn, hc⟩
    rw [hnone c hne, properties_sketch_of_none hne]

omit hP in
/-- The properties of a clone without a place. -/
theorem cloneProperties_of_not {p : Progress} {n : Node} (h : ¬ p.placed n.id) :
    P.cloneProperties data p n = Graph.cloneProperties n n.cloneCode P.codeList (data n.id) := by
  unfold cloneProperties
  simp only [if_neg h]

omit hP in
theorem mem_records {ids : List Id} (hids : ∀ s ∈ ids, ∃ n ∈ P.sources, n.id = s) {n : Node} :
    n ∈ P.start.records ids ↔ n ∈ P.sources ∧ n.id ∈ ids := by
  unfold Graph.records
  rw [List.mem_filterMap]
  constructor
  · rintro ⟨s, hs, hn⟩
    obtain ⟨m, hm, rfl⟩ := hids s hs
    obtain ⟨hid, hget⟩ := Graph.node?_eq_some.1 hn
    obtain ⟨hlabel, hmget⟩ := mem_sources.1 hm
    rw [hmget] at hget
    have hsame : n.label = m.label := congrArg Vertex.label (Option.some.inj hget).symm
    refine ⟨mem_sources.2 ⟨hsame.trans hlabel, ?_⟩, hid ▸ hs⟩
    rw [hid, hmget, hget]
  · rintro ⟨hn, hs⟩
    exact ⟨n.id, hs, Graph.node?_eq_some.2 ⟨rfl, (mem_sources.1 hn).2⟩⟩

/-- The source that is found by its code among some sources. -/
theorem find?_records {ids : List Id} (hids : ∀ s ∈ ids, ∃ n ∈ P.sources, n.id = s) {n : Node}
    (hn : n ∈ P.sources) (hmem : n.id ∈ ids) :
    (P.start.records ids).find? (fun m => m.cloneCode = n.cloneCode) = some n := by
  cases hfound : (P.start.records ids).find? fun m => m.cloneCode = n.cloneCode with
  | none =>
      have hno := List.find?_eq_none.1 hfound n ((mem_records hids).2 ⟨hn, hmem⟩)
      simp at hno
  | some m =>
      have hcode := List.find?_some hfound
      have hm := ((mem_records hids).1 (List.mem_of_find?_eq_some hfound)).1
      rw [code_inj hP hm hn (of_decide_eq_true hcode)]

theorem find?_records_of_not {ids : List Id} (hids : ∀ s ∈ ids, ∃ n ∈ P.sources, n.id = s)
    {n : Node} (hn : n ∈ P.sources) (hmem : n.id ∉ ids) :
    (P.start.records ids).find? (fun m => m.cloneCode = n.cloneCode) = none := by
  rw [List.find?_eq_none]
  intro m hm hcode
  obtain ⟨hm, hid⟩ := (mem_records hids).1 hm
  rw [code_inj hP hm hn (of_decide_eq_true hcode)] at hid
  exact hmem hid

/-- Cloning takes sketches to sketches.  What is known of the data matters to new clones alone. -/
theorem sketch_clone {p : Progress} (hp : p.Sensible) {ids : List Id} {hasData : Bool}
    (hids : ∀ s ∈ ids, ∃ n ∈ P.sources, n.id = s)
    (hdata : ∀ s ∈ ids, p.cloned s ∨ data s = hasData) :
    (P.sketch data p).clone P.codeList hasData (P.start.records ids) = P.sketch data
      { p with
        cloned := fun s => p.cloned s ∨ s ∈ ids
        linked := fun s => p.linked s ∨ s ∈ ids } := by
  apply Picture.ext
  · refine properties_ext (fun n hn => ?_) fun c hne => ?_
    · rw [Picture.properties_clone]
      by_cases hcloned : p.cloned n.id
      · rw [properties_sketch hP hn hcloned, properties_sketch hP hn (Or.inl hcloned)]
        rfl
      · rw [properties_sketch_of_not hP hn hcloned, Option.none_or]
        by_cases hmem : n.id ∈ ids
        · -- a source that is not cloned has not been given a place yet
          have hplaced : ¬ p.placed n.id := fun h => hcloned (hp n.id h)
          rw [find?_records hP hids hn hmem, properties_sketch hP hn (Or.inr hmem)]
          unfold cloneProperties
          simp only [if_neg hplaced, (hdata n.id hmem).resolve_left hcloned, Option.map_some]
        · rw [find?_records_of_not hP hids hn hmem, properties_sketch_of_not hP hn]
          · rfl
          · rintro (h | h)
            · exact hcloned h
            · exact hmem h
    · rw [Picture.properties_clone, properties_sketch_of_none hne, Option.none_or]
      have hnone : (P.start.records ids).find? (fun m => m.cloneCode = c) = none := by
        rw [List.find?_eq_none]
        intro m hm hcode
        exact hne m ((mem_records hids).1 hm).1 (of_decide_eq_true hcode)
      rw [hnone]
      rfl
  · rw [Picture.parent_clone]
    rfl
  · funext c s
    apply propext
    rw [Picture.link_clone]
    constructor
    · rintro (⟨n, hn, hid, hcode, hlinked⟩ | ⟨n, hn, rfl, hcode⟩)
      · exact ⟨n, hn, hid, hcode, Or.inl hlinked⟩
      · obtain ⟨hn, hmem⟩ := (mem_records hids).1 hn
        exact ⟨n, hn, rfl, hcode, Or.inr hmem⟩
    · rintro ⟨n, hn, rfl, hcode, hlinked | hmem⟩
      · exact Or.inl ⟨n, hn, rfl, hcode, hlinked⟩
      · exact Or.inr ⟨n, (mem_records hids).2 ⟨hn, hmem⟩, rfl, hcode⟩

omit hP in
/-- Repeating parent edges takes sketches to sketches. -/
theorem sketch_relate (p : Progress) (ids : List Id) :
    (P.sketch data p).relate P.start.Up ids = P.sketch data
      { p with mirrored := fun s t => p.mirrored s t ∨ (s ∈ ids ∧ p.linked s ∧ p.linked t) } := by
  apply Picture.ext
  · rfl
  · funext c d
    apply propext
    constructor
    · rintro (⟨n, hn, m, hm, hmirrored, hup, hc, hd⟩ |
        ⟨s, hs, t, hup, ⟨n, hn, rfl, hc, hlinked⟩, m, hm, rfl, hd, hlinked'⟩)
      · exact ⟨n, hn, m, hm, Or.inl hmirrored, hup, hc, hd⟩
      · exact ⟨n, hn, m, hm, Or.inr ⟨hs, hlinked, hlinked'⟩, hup, hc, hd⟩
    · rintro ⟨n, hn, m, hm, hmirrored | ⟨hs, hlinked, hlinked'⟩, hup, hc, hd⟩
      · exact Or.inl ⟨n, hn, m, hm, hmirrored, hup, hc, hd⟩
      · exact Or.inr ⟨n.id, hs, m.id, hup, ⟨n, hn, rfl, hc, hlinked⟩, m, hm, rfl, hd, hlinked'⟩
  · rfl

omit hP in
/-- Cutting links takes sketches to sketches. -/
theorem sketch_unlink (p : Progress) (ids : List Id) :
    (P.sketch data p).unlink (· ∈ ids) = P.sketch data
      { p with linked := fun s => p.linked s ∧ s ∉ ids } := by
  apply Picture.ext
  · rfl
  · rfl
  · funext c s
    apply propext
    constructor
    · rintro ⟨⟨n, hn, hid, hcode, hlinked⟩, hmem⟩
      exact ⟨n, hn, hid, hcode, hlinked, hmem⟩
    · rintro ⟨n, hn, hid, hcode, hlinked, hmem⟩
      exact ⟨⟨n, hn, hid, hcode, hlinked⟩, hmem⟩

omit hP in
theorem withPlace_withPlace (s : Id) (ps : Properties) :
    P.withPlace s (P.withPlace s ps) = P.withPlace s ps := by
  unfold withPlace
  cases P.place s with
  | none => rfl
  | some order => exact Table.insert_insert_self ps Property.order order

omit hP in
/-- Giving a place writes it to the nodes that are linked to the source, -/
theorem properties_placeOne {pic : Picture} {c : String} {s : Id} (h : pic.link c s) :
    (pic.placeOne P.place s).properties c = (pic.properties c).map (P.withPlace s) := by
  unfold Picture.placeOne withPlace
  cases P.place s with
  | none => exact Option.map_id'.symm
  | some order => exact Picture.properties_setWhere h

omit hP in
/-- and to no others. -/
theorem properties_placeOne_of_not {pic : Picture} {c : String} {s : Id} (h : ¬ pic.link c s) :
    (pic.placeOne P.place s).properties c = pic.properties c := by
  unfold Picture.placeOne
  cases P.place s with
  | none => rfl
  | some order => exact Picture.properties_setWhere_of_not h

omit hP in
theorem parent_placeOne (pic : Picture) (s : Id) :
    (pic.placeOne P.place s).parent = pic.parent := by
  unfold Picture.placeOne
  cases P.place s <;> rfl

omit hP in
theorem link_placeOne (pic : Picture) (s : Id) : (pic.placeOne P.place s).link = pic.link := by
  unfold Picture.placeOne
  cases P.place s <;> rfl

/-- Giving the place of one source takes sketches to sketches. -/
theorem sketch_placeOne (p : Progress) (s : Id) :
    (P.sketch data p).placeOne P.place s = P.sketch data
      { p with placed := fun t => p.placed t ∨ (t = s ∧ p.linked t) } := by
  apply Picture.ext
  · refine properties_ext (fun n hn => ?_) fun c hne => ?_
    · by_cases hlink : s = n.id ∧ p.linked s
      · obtain ⟨rfl, hlinked⟩ := hlink
        rw [properties_placeOne ((link_sketch hP hn).2 ⟨rfl, hlinked⟩)]
        unfold sketch cloneProperties
        simp only [source?_of_mem hP hn, Option.bind_some]
        by_cases hcloned : p.cloned n.id
        · rw [if_pos hcloned, if_pos hcloned, Option.map_some, if_pos (Or.inr ⟨rfl, hlinked⟩)]
          split
          · -- the place has been given before
            rw [withPlace_withPlace]
          · rfl
        · rw [if_neg hcloned, if_neg hcloned]
          rfl
      · rw [properties_placeOne_of_not fun h => hlink ((link_sketch hP hn).1 h)]
        have hsame : ¬ (n.id = s ∧ p.linked n.id) := by
          rintro ⟨rfl, hlinked⟩
          exact hlink ⟨rfl, hlinked⟩
        unfold sketch cloneProperties
        simp only [source?_of_mem hP hn, Option.bind_some]
        by_cases hplaced : p.placed n.id
        · rw [if_pos hplaced, if_pos (Or.inl hplaced)]
        · have hneither : ¬ (p.placed n.id ∨ n.id = s ∧ p.linked n.id) := not_or.2 ⟨hplaced, hsame⟩
          rw [if_neg hplaced, if_neg hneither]
    · have hlink : ¬ (P.sketch data p).link c s := by
        rintro ⟨n, hn, -, hc, -⟩
        exact hne n hn hc
      rw [properties_placeOne_of_not hlink, properties_sketch_of_none hne]
  · rw [parent_placeOne]
    rfl
  · rw [link_placeOne]
    rfl

/-- Giving places takes sketches to sketches. -/
theorem sketch_placeAll (p : Progress) (ids : List Id) :
    (P.sketch data p).placeAll P.place ids = P.sketch data
      { p with placed := fun s => p.placed s ∨ (s ∈ ids ∧ p.linked s) } := by
  unfold Picture.placeAll
  induction ids generalizing p with
  | nil => simp
  | cons s rest ih =>
      rw [List.foldl_cons, sketch_placeOne hP, ih]
      congr 1
      apply Progress.ext
      · rfl
      · rfl
      · funext t
        simp only [List.mem_cons, or_and_right, or_assoc]
      · rfl

/-- Every call takes the sketch of what the calls before it left to the sketch of what it leaves. -/
theorem sketch_append {label : String} {log : List Received} {e : Received}
    (hfollows : P.Follows data label e.statement.operation) :
    P.sketch data (.ofLog label (log ++ [e])) =
      P.applied label e.statement.operation (P.sketch data (.ofLog label log)) := by
  rw [Progress.ofLog_append]
  unfold Received.Clones Received.Relates Received.Places Received.Unlinks
  unfold Follows at hfollows
  generalize e.statement.operation = op at hfollows ⊢
  -- calls that name a hierarchy count if it is this one; those that name none always do
  cases op with
  | query q => simp [applied, Progress.ofLog]
  | mutation m =>
      cases m with
      | cloneSources key codeList ids hasData =>
          simp only [applied]
          by_cases hkey : NodeLabel.hierarchy key = label
          · obtain ⟨rfl, hids⟩ := hfollows key codeList ids hasData rfl hkey
            have hclone := sketch_clone hP (sensible_ofLog label log) (fun s hs => (hids s hs).1)
              fun s hs => Or.inr (hids s hs).2
            subst hkey
            rw [Graph.onlyOn_self, hclone]
            simp [Progress.ofLog, or_comm]
          · rw [Graph.onlyOn_of_ne _ fun h => hkey h.symm]
            simp [hkey, Progress.ofLog]
      | relateSources key ids =>
          simp only [applied]
          by_cases hkey : NodeLabel.hierarchy key = label
          · subst hkey
            rw [Graph.onlyOn_self, sketch_relate]
            simp [Progress.ofLog]
          · rw [Graph.onlyOn_of_ne _ fun h => hkey h.symm]
            simp [hkey, Progress.ofLog]
      | copyOrder codeList ids => simp [applied, sketch_placeAll hP, Progress.ofLog]
      | unlinkSources ids => simp [applied, sketch_unlink, Progress.ofLog]
      | _ => simp [applied, Progress.ofLog]

end Plan
end InstanceHierarchy
