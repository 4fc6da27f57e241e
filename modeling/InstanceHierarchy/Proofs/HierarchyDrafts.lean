import InstanceHierarchy.Proofs.IdBuildOutcome

/-!
# Drafts of hierarchies

Builds from ids that are stopped leave a draft of their hierarchy: clones of some sources that are
wanted, with or without places, links and parent edges, and with numbers of children that may not be
true yet.  A draft is a sketch but for these numbers.  The milestones of the build that is going on
say what a draft has at least, and each step of a build makes another draft of it.  A draft that
lacks nothing is the finished hierarchy.
-/

namespace InstanceHierarchy

/-! ## Numbers of children -/

namespace Picture

/-- The picture without the numbers of children. -/
def uncounted (pic : Picture) : Picture :=
  pic.rewrite fun _ ps => ps.erase Property.numberOfChildren

theorem isSome_uncounted (pic : Picture) (c : String) :
    (pic.uncounted.properties c).isSome ↔ (pic.properties c).isSome := by
  show (Option.map _ _).isSome ↔ _
  rw [Option.isSome_map]

theorem erase_cloneProperties (n : Node) (c : String) (codeList : Id) (hasData : Bool) :
    (Graph.cloneProperties n c codeList hasData).erase Property.numberOfChildren =
      Graph.cloneProperties n c codeList hasData := by
  refine Table.erase_eq_self ?_
  rw [Graph.get?_cloneProperties, if_neg (by decide), if_neg (by decide), if_neg (by decide),
    if_neg (by decide)]

/-- New clones have no numbers of children. -/
theorem uncounted_clone (codeList : Id) (hasData : Bool) (sources : List Node) (pic : Picture) :
    (pic.clone codeList hasData sources).uncounted =
      pic.uncounted.clone codeList hasData sources := by
  apply Picture.ext
  · funext c
    show Option.map _ ((pic.clone codeList hasData sources).properties c) = _
    rw [properties_clone, properties_clone]
    show _ = (Option.map _ (pic.properties c)).or _
    cases pic.properties c with
    | some ps => rfl
    | none =>
        cases sources.find? fun n => n.cloneCode = c with
        | none => rfl
        | some n => exact congrArg some (erase_cloneProperties n c codeList hasData)
  · rw [parent_clone]
    exact parent_clone codeList hasData sources pic
  · funext c s
    apply propext
    rw [link_clone]
    exact link_clone

theorem uncounted_setWhere {test : String → Prop} {key : String} {value : String → Json}
    (hkey : key ≠ Property.numberOfChildren) (pic : Picture) :
    (pic.setWhere test key value).uncounted = pic.uncounted.setWhere test key value := by
  apply Picture.ext
  · funext c
    show Option.map _ ((pic.setWhere test key value).properties c) = _
    by_cases h : test c
    · rw [properties_setWhere h, properties_setWhere h]
      show _ = Option.map _ (Option.map _ (pic.properties c))
      rw [Option.map_map, Option.map_map]
      congr 1
      funext ps
      exact Table.erase_insert_of_ne ps (value c) hkey
    · rw [properties_setWhere_of_not h, properties_setWhere_of_not h]
      rfl
  · rfl
  · rfl

theorem uncounted_placeOne (place : Id → Option Json) (pic : Picture) (s : Id) :
    (pic.placeOne place s).uncounted = pic.uncounted.placeOne place s := by
  unfold placeOne
  cases place s with
  | none => rfl
  | some order => exact uncounted_setWhere (by decide) pic

theorem uncounted_placeAll (place : Id → Option Json) (ids : List Id) (pic : Picture) :
    (pic.placeAll place ids).uncounted = pic.uncounted.placeAll place ids := by
  unfold placeAll
  induction ids generalizing pic with
  | nil => rfl
  | cons s rest ih => rw [List.foldl_cons, ih, uncounted_placeOne, List.foldl_cons]

theorem uncounted_count (test : String → Prop) (pic : Picture) :
    (pic.count test).uncounted = pic.uncounted := by
  apply Picture.ext
  · funext c
    show Option.map _ ((pic.count test).properties c) = Option.map _ (pic.properties c)
    unfold count
    by_cases h : test c
    · rw [properties_setWhere h, Option.map_map]
      congr 1
      funext ps
      exact Table.erase_insert_self ps Property.numberOfChildren (pic.childCount c)
    · rw [properties_setWhere_of_not h]
  · rfl
  · rfl

/-- It does not matter which numbers were there when all children are counted. -/
theorem count_uncounted (pic : Picture) :
    (pic.uncounted.count fun _ => True) = pic.count fun _ => True := by
  apply Picture.ext
  · funext c
    rw [properties_count_all, properties_count_all]
    show Option.map _ (Option.map _ (pic.properties c)) = _
    rw [Option.map_map]
    congr 1
    funext ps
    exact Table.insert_erase_self ps Property.numberOfChildren (pic.childCount c)
  · rfl
  · rfl

/-- Numbers that are true stay so when more children are counted. -/
theorem count_keeps {pic : Picture} {test test' : String → Prop} (h : pic.count test = pic) :
    (pic.count test').count (fun c => test c ∨ test' c) = pic.count test' := by
  have hboth : pic.count (fun c => test c ∨ test' c) = pic.count test' := by
    rw [← count_count, h]
  calc (pic.count test').count (fun c => test c ∨ test' c)
      = pic.count (fun c => test' c ∨ test c ∨ test' c) := count_count pic test' _
    _ = pic.count (fun c => test c ∨ test' c) :=
        count_congr fun c _ => ⟨fun h => h.elim Or.inr id, Or.inr⟩
    _ = pic.count test' := hboth

end Picture

/-! ## What a draft has -/

/-- A build has gone no further than it should go: only wanted sources are cloned, places are given
only if the build is to give them, and what is linked, placed or related has been cloned. -/
structure Progress.Within (p : Progress) (wanted : Id → Prop) (placing : Bool) : Prop where
  cloned : ∀ s, p.cloned s → wanted s
  linked : ∀ s, p.linked s → p.cloned s
  placed : ∀ s, p.placed s → placing = true ∧ p.cloned s
  mirrored : ∀ s t, p.mirrored s t → p.cloned s ∧ p.cloned t

/-- A build that stands at its milestones has come at least so far; what it has cut loose is not
linked. -/
structure Milestones.Met (m : Milestones) (p : Progress) : Prop where
  cloned : ∀ s, m.cloned s → p.cloned s
  linked : ∀ s, m.cloned s → ¬ m.cut s → p.linked s
  related : ∀ s t, m.related s → m.cloned t → p.mirrored s t
  placed : ∀ s, m.placed s → p.placed s
  cut : ∀ s, m.cut s → ¬ p.linked s

theorem Milestones.met_start (p : Progress) : start.Met p :=
  ⟨fun _ h => h.elim, fun _ h => h.elim, fun _ _ h => h.elim, fun _ h => h.elim, fun _ h => h.elim⟩

/-- At the last milestones nothing is left open. -/
theorem Milestones.Met.final {wanted : Id → Prop} {placing : Bool} {p : Progress}
    (h : (finished wanted placing).Met p) (hp : p.Within wanted placing) :
    p = .final wanted placing := by
  have hcloned : ∀ s, p.cloned s ↔ wanted s := by
    intro s
    refine ⟨hp.cloned s, fun hs => h.cloned s ?_⟩
    cases placing <;> exact hs
  have hcut : ∀ s, wanted s → ¬ p.linked s := by
    intro s hs
    refine h.cut s ?_
    cases placing <;> exact hs
  apply Progress.ext
  · funext s
    exact propext (hcloned s)
  · funext s
    refine propext ⟨fun hs => ?_, False.elim⟩
    exact hcut s (hp.cloned s (hp.linked s hs)) hs
  · funext s
    refine propext ⟨fun hs => ?_, ?_⟩
    · obtain ⟨hplacing, hs'⟩ := hp.placed s hs
      exact ⟨hplacing, hp.cloned s hs'⟩
    · rintro ⟨rfl, hs⟩
      exact h.placed s hs
  · funext s t
    refine propext ⟨fun hst => ?_, fun ⟨hs, ht⟩ => ?_⟩
    · obtain ⟨hs, ht⟩ := hp.mirrored s t hst
      exact ⟨hp.cloned s hs, hp.cloned t ht⟩
    · cases placing <;> exact h.related s t hs ht

namespace Plan

variable {P : Plan} {data : Id → Bool} {key : HierarchyKey} {placing : Bool}
  {counted : String → Prop} {m : Milestones} {pic : Picture}

/-- Calls do not read the numbers of children. -/
theorem uncounted_applied (label : String) (op : Operation) (pic : Picture) :
    (P.applied label op pic).uncounted = P.applied label op pic.uncounted := by
  cases op with
  | query q => rfl
  | mutation mutation =>
      cases mutation with
      | cloneSources key codeList ids hasData =>
          simp only [applied]
          by_cases hkey : label = NodeLabel.hierarchy key
          · subst hkey
            rw [Graph.onlyOn_self]
            exact Picture.uncounted_clone _ _ _ _
          · rw [Graph.onlyOn_of_ne _ hkey]
            rfl
      | relateSources key ids =>
          simp only [applied]
          by_cases hkey : label = NodeLabel.hierarchy key
          · subst hkey
            rw [Graph.onlyOn_self]
            rfl
          · rw [Graph.onlyOn_of_ne _ hkey]
            rfl
      | copyOrder codeList ids => exact Picture.uncounted_placeAll _ _ _
      | _ => rfl

/-- A draft of the hierarchy, in which the build stands at its milestones and the children of some
nodes have been counted. -/
structure Draft (P : Plan) (data : Id → Bool) (key : HierarchyKey) (placing : Bool)
    (counted : String → Prop) (m : Milestones) (pic : Picture) : Prop where
  sketched : ∃ p : Progress, pic.uncounted = P.sketch data p ∧ p.Within (P.Wanted key) placing ∧
    m.Met p
  counted : pic.count counted = pic

namespace Draft

/-- Before the first build there is nothing. -/
theorem empty (hP : P.start.DistinctCodes (NodeLabel.generic P.codeList)) :
    P.Draft data key placing (fun _ => False) .start .empty := by
  let p : Progress := ⟨fun _ => False, fun _ => False, fun _ => False, fun _ _ => False⟩
  have hsketch : P.sketch data p = .empty :=
    sketch_eq_empty hP (fun _ => id) (fun _ => id) fun _ _ => id
  refine ⟨⟨p, hsketch.symm, ?_, Milestones.met_start p⟩, Picture.count_none _ fun _ => id⟩
  exact ⟨fun _ h => h.elim, fun _ h => h.elim, fun _ h => h.elim, fun _ _ h => h.elim⟩

/-- A draft may be taken as one that a new build finds. -/
theorem begun (h : P.Draft data key placing counted m pic) :
    P.Draft data key placing (fun _ => False) .start pic := by
  obtain ⟨p, hpic, hp, -⟩ := h.sketched
  exact ⟨⟨p, hpic, hp, Milestones.met_start p⟩, Picture.count_none _ fun _ => id⟩

/-- The codes of a draft in which all wanted sources are cloned. -/
theorem isSome_iff (h : P.Draft data key placing counted m pic)
    (hP : P.start.DistinctCodes (NodeLabel.generic P.codeList))
    (hcloned : m.cloned = P.Wanted key) (c : String) :
    (pic.properties c).isSome ↔ ∃ n ∈ P.sources, P.Wanted key n.id ∧ n.cloneCode = c := by
  obtain ⟨p, hpic, hp, hm⟩ := h.sketched
  rw [← Picture.isSome_uncounted, hpic, isSome_sketch hP]
  refine exists_congr fun n => and_congr_right fun _ => and_congr_left fun _ => ?_
  exact ⟨hp.cloned n.id, fun hn => hm.cloned n.id (hcloned ▸ hn)⟩

/-- A draft that lacks nothing is the finished hierarchy. -/
theorem eq_finished
    (h : P.Draft data key placing (fun _ => True) (.finished (P.Wanted key) placing) pic) :
    pic = (P.sketch data (.final (P.Wanted key) placing)).count fun _ => True := by
  obtain ⟨p, hpic, hp, hm⟩ := h.sketched
  rw [← hm.final hp, ← hpic, Picture.count_uncounted]
  exact h.counted.symm

/-! ## Steps -/

variable {ids : List Id} {done : Id → Prop}

/-- A call that takes the sketch to another one takes the draft to another one. -/
theorem next {m' : Milestones} (h : P.Draft data key placing (fun _ => False) m pic)
    (label : String) (op : Operation)
    (hstep : ∀ p : Progress, pic.uncounted = P.sketch data p → p.Within (P.Wanted key) placing →
      m.Met p → ∃ p' : Progress, P.applied label op (P.sketch data p) = P.sketch data p' ∧
        p'.Within (P.Wanted key) placing ∧ m'.Met p') :
    P.Draft data key placing (fun _ => False) m' (P.applied label op pic) := by
  obtain ⟨p, hpic, hp, hm⟩ := h.sketched
  obtain ⟨p', happlied, hp', hm'⟩ := hstep p hpic hp hm
  refine ⟨⟨p', ?_, hp', hm'⟩, Picture.count_none _ fun _ => id⟩
  rw [uncounted_applied, hpic, happlied]

/-- A source whose code the draft has already may be cloned as one with data or without. -/
theorem cloneSources (h : P.Draft data key placing (fun _ => False) m pic)
    (hP : P.start.DistinctCodes (NodeLabel.generic P.codeList)) {hasData : Bool}
    (hids : ∀ s ∈ ids, (∃ n ∈ P.sources, n.id = s) ∧ P.Wanted key s ∧
      ((∃ n ∈ P.sources, n.id = s ∧ (pic.properties n.cloneCode).isSome) ∨ data s = hasData))
    (hrelated : ∀ s, ¬ m.related s) (hcut : ∀ s, ¬ m.cut s)
    (hdone : ∀ s, done s ↔ m.cloned s ∨ s ∈ ids) :
    P.Draft data key placing (fun _ => False) { m with cloned := done }
      (P.applied (NodeLabel.hierarchy key)
        (.mutation (.cloneSources key P.codeList ids hasData)) pic) := by
  refine h.next _ _ fun p hpic hp hm => ⟨{ p with
    cloned := fun s => p.cloned s ∨ s ∈ ids
    linked := fun s => p.linked s ∨ s ∈ ids }, ?_, ?_, ?_⟩
  · have hsensible : p.Sensible := fun s hs => (hp.placed s hs).2
    simp only [applied, Graph.onlyOn_self]
    refine sketch_clone hP hsensible (fun s hs => (hids s hs).1) fun s hs => ?_
    rcases (hids s hs).2.2 with ⟨n, hn, rfl, hcode⟩ | hdata
    · rw [← Picture.isSome_uncounted, hpic, isSome_sketch hP] at hcode
      obtain ⟨n', hn', hcloned, hcode⟩ := hcode
      exact Or.inl (code_inj hP hn' hn hcode ▸ hcloned)
    · exact Or.inr hdata
  · refine ⟨fun s hs => ?_, fun s hs => hs.imp_left (hp.linked s), fun s hs => ?_, fun s t hs => ?_⟩
    · exact hs.elim (hp.cloned s) fun hmem => (hids s hmem).2.1
    · exact (hp.placed s hs).imp_right Or.inl
    · exact (hp.mirrored s t hs).imp Or.inl Or.inl
  · refine ⟨fun s hs => ?_, fun s hs hc => ?_, fun s t hs => absurd hs (hrelated s), hm.placed,
      fun s hs => absurd hs (hcut s)⟩
    · exact ((hdone s).1 hs).imp_left (hm.cloned s)
    · exact ((hdone s).1 hs).imp_left fun hs => hm.linked s hs hc

theorem relateSources (h : P.Draft data key placing (fun _ => False) m pic)
    (hids : ∀ s ∈ ids, m.cloned s) (hcut : ∀ s, ¬ m.cut s)
    (hdone : ∀ s, done s ↔ m.related s ∨ s ∈ ids) :
    P.Draft data key placing (fun _ => False) { m with related := done }
      (P.applied (NodeLabel.hierarchy key) (.mutation (.relateSources key ids)) pic) := by
  refine h.next _ _ fun p _ hp hm => ⟨{ p with
    mirrored := fun s t => p.mirrored s t ∨ (s ∈ ids ∧ p.linked s ∧ p.linked t) }, ?_, ?_, ?_⟩
  · simp only [applied, Graph.onlyOn_self]
    exact sketch_relate p ids
  · refine ⟨hp.cloned, hp.linked, hp.placed, fun s t hst => ?_⟩
    rcases hst with hst | ⟨-, hs, ht⟩
    · exact hp.mirrored s t hst
    · exact ⟨hp.linked s hs, hp.linked t ht⟩
  · refine ⟨hm.cloned, hm.linked, fun s t hs ht => ?_, hm.placed, hm.cut⟩
    rcases (hdone s).1 hs with hs | hs
    · exact Or.inl (hm.related s t hs ht)
    · exact Or.inr ⟨hs, hm.linked s (hids s hs) (hcut s), hm.linked t ht (hcut t)⟩

theorem copyOrder (h : P.Draft data key placing (fun _ => False) m pic)
    (hP : P.start.DistinctCodes (NodeLabel.generic P.codeList)) (hplacing : placing = true)
    (hids : ∀ s ∈ ids, m.cloned s) (hcut : ∀ s, ¬ m.cut s)
    (hdone : ∀ s, done s ↔ m.placed s ∨ s ∈ ids) :
    P.Draft data key placing (fun _ => False) { m with placed := done }
      (P.applied (NodeLabel.hierarchy key) (.mutation (.copyOrder P.codeList ids)) pic) := by
  refine h.next _ _ fun p _ hp hm => ⟨{ p with
    placed := fun s => p.placed s ∨ (s ∈ ids ∧ p.linked s) }, sketch_placeAll hP p ids, ?_, ?_⟩
  · refine ⟨hp.cloned, hp.linked, fun s hs => ?_, hp.mirrored⟩
    rcases hs with hs | ⟨-, hs⟩
    · exact hp.placed s hs
    · exact ⟨hplacing, hp.linked s hs⟩
  · refine ⟨hm.cloned, hm.linked, hm.related, fun s hs => ?_, hm.cut⟩
    rcases (hdone s).1 hs with hs | hs
    · exact Or.inl (hm.placed s hs)
    · exact Or.inr ⟨hs, hm.linked s (hids s hs) (hcut s)⟩

theorem unlinkSources (h : P.Draft data key placing (fun _ => False) m pic)
    (hdone : ∀ s, done s ↔ m.cut s ∨ s ∈ ids) :
    P.Draft data key placing (fun _ => False) { m with cut := done }
      (P.applied (NodeLabel.hierarchy key) (.mutation (.unlinkSources ids)) pic) := by
  refine h.next _ _ fun p _ hp hm => ⟨{ p with linked := fun s => p.linked s ∧ s ∉ ids },
    sketch_unlink p ids, ?_, ?_⟩
  · exact ⟨hp.cloned, fun s hs => hp.linked s hs.1, hp.placed, hp.mirrored⟩
  · refine ⟨hm.cloned, fun s hs hc => ?_, hm.related, hm.placed, fun s hs hl => ?_⟩
    · have hnot := not_or.1 fun h => hc ((hdone s).2 h)
      exact ⟨hm.linked s hs hnot.1, hnot.2⟩
    · rcases (hdone s).1 hs with hs | hs
      · exact hm.cut s hs hl.1
      · exact hl.2 hs

/-- Linking a source to its code is not seen in the hierarchy. -/
theorem linkCode (h : P.Draft data key placing (fun _ => False) m pic) (s : Id) (code : String) :
    P.Draft data key placing (fun _ => False) { m with coded := done }
      (P.applied (NodeLabel.hierarchy key) (.mutation (.linkCode P.codeList s code)) pic) :=
  h.next _ _ fun p _ hp hm =>
    ⟨p, rfl, hp, hm.cloned, hm.linked, hm.related, hm.placed, hm.cut⟩

theorem count (h : P.Draft data key placing counted m pic) (test : String → Prop) :
    P.Draft data key placing (fun c => counted c ∨ test c) m (pic.count test) := by
  obtain ⟨p, hpic, hp, hm⟩ := h.sketched
  exact ⟨⟨p, (Picture.uncounted_count test pic).trans hpic, hp, hm⟩, Picture.count_keeps h.counted⟩

end Draft
end Plan
end InstanceHierarchy
