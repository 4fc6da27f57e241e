import InstanceHierarchy.Proofs.Bulk

/-!
# Remnants of bulk builds

A bulk build that is cut off leaves a remnant behind: clones that may be flagged, marked or counted,
some of their parent edges and some of their links.  Nothing in a remnant goes beyond what the code
list and the data ask for, and every step of another build keeps it so.  Each step also reaches a
milestone, which it reaches from whatever remnant there is and which it does not lose when it is
carried out once more.  The last milestone is the hierarchy that is wanted.
-/

namespace InstanceHierarchy

open Relation

/-! ## Unfinished clones -/

/-- The properties are those of a new clone, flagged or not and marked or not.  What is stored as
the number of children is left open. -/
def Rough (n : Node) (c : String) (codeList : Id) (flag mark : Bool) (ps : Properties) : Prop :=
  ∀ k, k ≠ Property.numberOfChildren → ps.get? k =
    if k = Property.remain then (if mark then some (.bool true) else none)
    else (Graph.cloneProperties n c codeList flag).get? k

section Rough

variable {n : Node} {c : String} {codeList : Id} {flag mark : Bool} {ps : Properties}

theorem rough_new (n : Node) (c : String) (codeList : Id) (flag : Bool) :
    Rough n c codeList flag false (Graph.cloneProperties n c codeList flag) := by
  intro k _
  by_cases hk : k = Property.remain
  · subst hk
    rw [if_pos rfl, Graph.get?_cloneProperties]
    rfl
  · rw [if_neg hk]

theorem Rough.hasData (h : Rough n c codeList flag mark ps) :
    ps.get? Property.hasData = some (.bool flag) := by
  rw [h _ (by decide), if_neg (by decide), Graph.get?_cloneProperties, if_neg (by decide),
    if_pos rfl]

theorem Rough.remain (h : Rough n c codeList flag mark ps) :
    ps.get? Property.remain = if mark then some (.bool true) else none := by
  rw [h _ (by decide), if_pos rfl]

theorem Rough.isMarked (h : Rough n c codeList flag mark ps) : Picture.isMarked ps = mark := by
  unfold Picture.isMarked
  rw [h.remain]
  cases mark <;> rfl

theorem Rough.flagged (h : Rough n c codeList flag mark ps) :
    Rough n c codeList true mark (ps.insert Property.hasData (.bool true)) := by
  intro k hk
  rw [Table.get?_insert]
  by_cases hdata : Property.hasData = k
  · subst hdata
    rw [if_pos rfl, if_neg (by decide), Graph.get?_cloneProperties, if_neg (by decide), if_pos rfl]
  · have hdata' : k ≠ Property.hasData := fun h => hdata h.symm
    rw [if_neg hdata, h k hk, Graph.get?_cloneProperties, Graph.get?_cloneProperties]
    simp only [if_neg hdata']

theorem Rough.marked (h : Rough n c codeList flag mark ps) :
    Rough n c codeList flag true (ps.insert Property.remain (.bool true)) := by
  intro k hk
  rw [Table.get?_insert]
  by_cases hremain : Property.remain = k
  · subst hremain
    rfl
  · rw [if_neg hremain, h k hk, if_neg fun h => hremain h.symm, if_neg fun h => hremain h.symm]

theorem Rough.unmarked (h : Rough n c codeList flag mark ps) :
    Rough n c codeList flag false (ps.erase Property.remain) := by
  intro k hk
  rw [Table.get?_erase]
  by_cases hremain : Property.remain = k
  · subst hremain
    rfl
  · rw [if_neg hremain, h k hk, if_neg fun h => hremain h.symm, if_neg fun h => hremain h.symm]

theorem Rough.counted (h : Rough n c codeList flag mark ps) (count : Json) :
    Rough n c codeList flag mark (ps.insert Property.numberOfChildren count) := by
  intro k hk
  rw [Table.get?_insert, if_neg fun h => hk h.symm]
  exact h k hk

end Rough

/-- The properties are those of an unfinished clone for the code: flagged only if the code has data,
and marked only if it is relevant. -/
def Unfinished (g : Graph) (label : String) (codes : List String) (codeList : Id) (c : String)
    (ps : Properties) : Prop :=
  ∃ n flag mark, g.source? label c = some n ∧ Rough n c codeList flag mark ps ∧
    (flag = true → c ∈ codes) ∧ (mark = true → g.Relevant label codes c)

/-- A hierarchy that a bulk build of a code list has left behind. -/
structure Remnant (g : Graph) (label : String) (codes : List String) (codeList : Id)
    (pic : Picture) : Prop where
  clone : ∀ c ps, pic.properties c = some ps → Unfinished g label codes codeList c ps
  parent : ∀ c p, pic.parent c p → g.CodeParent label c p
  link : ∀ c s, pic.link c s → ∃ n ∈ g.nodesWithLabel label, n.id = s ∧ n.cloneCode = c

namespace Picture

theorem hasData_rewrite {pic : Picture} {U : String → Properties → Properties} {c : String}
    (h : ∀ ps, (U c ps).get? Property.hasData = ps.get? Property.hasData) :
    (pic.rewrite U).HasData c ↔ pic.HasData c := by
  unfold HasData rewrite
  simp only [Option.map_eq_some_iff]
  constructor
  · rintro ⟨_, ⟨ps, hps, rfl⟩, hflag⟩
    exact ⟨ps, hps, h ps ▸ hflag⟩
  · rintro ⟨ps, hps, hflag⟩
    exact ⟨_, ⟨ps, hps, rfl⟩, (h ps).symm ▸ hflag⟩

theorem stays_rewrite {pic : Picture} {U : String → Properties → Properties} {c : String}
    (h : ∀ ps, (U c ps).get? Property.remain = ps.get? Property.remain) :
    (pic.rewrite U).Stays c ↔ pic.Stays c := by
  unfold Stays rewrite isMarked
  simp only [Option.map_eq_some_iff]
  constructor
  · rintro ⟨_, ⟨ps, hps, rfl⟩, hmark⟩
    exact ⟨ps, hps, h ps ▸ hmark⟩
  · rintro ⟨ps, hps, hmark⟩
    exact ⟨_, ⟨ps, hps, rfl⟩, (h ps).symm ▸ hmark⟩

theorem hasData_setWhere {pic : Picture} {test : String → Prop} {key : String}
    {value : String → Json} {c : String} (hkey : key ≠ Property.hasData) :
    (pic.setWhere test key value).HasData c ↔ pic.HasData c := by
  refine hasData_rewrite fun ps => ?_
  split
  · rw [Table.get?_insert, if_neg hkey]
  · rfl

theorem stays_setWhere {pic : Picture} {test : String → Prop} {key : String}
    {value : String → Json} {c : String} (hkey : key ≠ Property.remain) :
    (pic.setWhere test key value).Stays c ↔ pic.Stays c := by
  refine stays_rewrite fun ps => ?_
  split
  · rw [Table.get?_insert, if_neg hkey]
  · rfl

theorem isSome_rewrite {pic : Picture} {U : String → Properties → Properties} {c : String} :
    ((pic.rewrite U).properties c).isSome ↔ (pic.properties c).isSome := by
  show (Option.map _ _).isSome ↔ _
  rw [Option.isSome_map]

end Picture

namespace Remnant

variable {g : Graph} {label : String} {codes : List String} {codeList : Id} {pic : Picture}

theorem empty (g : Graph) (label : String) (codes : List String) (codeList : Id) :
    Remnant g label codes codeList Picture.empty :=
  ⟨nofun, nofun, nofun⟩

theorem source (h : Remnant g label codes codeList pic) {c : String}
    (hc : (pic.properties c).isSome) : (g.source? label c).isSome := by
  obtain ⟨ps, hps⟩ := Option.isSome_iff_exists.1 hc
  obtain ⟨n, -, -, hn, -⟩ := h.clone c ps hps
  exact Option.isSome_iff_exists.2 ⟨n, hn⟩

theorem hasData (h : Remnant g label codes codeList pic) {c : String} (hc : pic.HasData c) :
    c ∈ codes := by
  obtain ⟨ps, hps, hflag⟩ := hc
  obtain ⟨n, flag, mark, -, hrough, hcodes, -⟩ := h.clone c ps hps
  rw [hrough.hasData] at hflag
  exact hcodes (Option.some.inj hflag)

theorem stays (h : Remnant g label codes codeList pic) {c : String} (hc : pic.Stays c) :
    g.Relevant label codes c := by
  obtain ⟨ps, hps, hmark⟩ := hc
  obtain ⟨n, flag, mark, -, hrough, -, hrelevant⟩ := h.clone c ps hps
  rw [hrough.isMarked] at hmark
  exact hrelevant hmark

/-- What is marked from a remnant is relevant. -/
theorem marked (h : Remnant g label codes codeList pic) {c : String} (hc : pic.Marked c) :
    g.Relevant label codes c := by
  obtain ⟨d, hd, hchain⟩ := hc
  have ⟨ps, hps, _⟩ := hd
  have hsource := h.source (Option.isSome_iff_exists.2 ⟨ps, hps⟩)
  exact ⟨d, ⟨h.hasData hd, Graph.source?_isSome.1 hsource⟩,
    ReflTransGen.mono h.parent _ _ hchain⟩

/-! ## Every step keeps a remnant within its bounds -/

theorem rewrite (h : Remnant g label codes codeList pic)
    {U : String → Properties → Properties}
    (hU : ∀ c ps, Unfinished g label codes codeList c ps →
      Unfinished g label codes codeList c (U c ps)) :
    Remnant g label codes codeList (pic.rewrite U) := by
  refine ⟨fun c ps hps => ?_, h.parent, h.link⟩
  obtain ⟨old, hold, rfl⟩ := Option.map_eq_some_iff.1 hps
  exact hU c old (h.clone c old hold)

theorem setWhere (h : Remnant g label codes codeList pic) {test : String → Prop} {key : String}
    {value : String → Json}
    (hU : ∀ c ps, test c → Unfinished g label codes codeList c ps →
      Unfinished g label codes codeList c (ps.insert key (value c))) :
    Remnant g label codes codeList (pic.setWhere test key value) := by
  refine h.rewrite fun c ps hps => ?_
  split
  · rename_i htest
    exact hU c ps htest hps
  · exact hps

theorem cloned (h : Remnant g label codes codeList pic) :
    Remnant g label codes codeList (pic.clone codeList false (g.nodesWithLabel label)) := by
  refine ⟨fun c ps hps => ?_, ?_, fun c s hlink => ?_⟩
  · rw [Picture.properties_clone] at hps
    rcases Option.or_eq_some_iff.1 hps with hps | ⟨-, hps⟩
    · exact h.clone c ps hps
    · obtain ⟨n, hn, rfl⟩ := Option.map_eq_some_iff.1 hps
      exact ⟨n, false, false, hn, rough_new n c codeList false, nofun, nofun⟩
  · rw [Picture.parent_clone]
    exact h.parent
  · rcases Picture.link_clone.1 hlink with hlink | hlink
    · exact h.link c s hlink
    · exact hlink

theorem related (h : Remnant g label codes codeList pic) :
    Remnant g label codes codeList (pic.relate g.Up (g.idsWithLabel label)) := by
  refine ⟨h.clone, ?_, h.link⟩
  rintro c p (hparent | ⟨s, -, t, hup, hc, hp⟩)
  · exact h.parent c p hparent
  · obtain ⟨n, hn, rfl, rfl⟩ := h.link c s hc
    obtain ⟨m, hm, rfl, rfl⟩ := h.link p t hp
    exact ⟨n, hn, m, hm, hup, rfl, rfl⟩

theorem unlinked (h : Remnant g label codes codeList pic) (cut : Id → Prop) :
    Remnant g label codes codeList (pic.unlink cut) :=
  ⟨h.clone, h.parent, fun c s hlink => h.link c s hlink.1⟩

theorem flagged (h : Remnant g label codes codeList pic) :
    Remnant g label codes codeList
      (pic.setWhere (· ∈ codes) Property.hasData fun _ => .bool true) := by
  refine h.setWhere fun c ps hc hps => ?_
  obtain ⟨n, flag, mark, hn, hrough, -, hrelevant⟩ := hps
  exact ⟨n, true, mark, hn, hrough.flagged, fun _ => hc, hrelevant⟩

theorem mark (h : Remnant g label codes codeList pic) :
    Remnant g label codes codeList pic.mark := by
  refine h.setWhere fun c ps hc hps => ?_
  obtain ⟨n, flag, mark, hn, hrough, hcodes, -⟩ := hps
  exact ⟨n, flag, true, hn, hrough.marked, hcodes, fun _ => h.marked hc⟩

theorem prune (h : Remnant g label codes codeList pic) :
    Remnant g label codes codeList pic.prune :=
  ⟨fun c ps hps => h.clone c ps (Option.filter_eq_some_iff.1 hps).1,
    fun c p hparent => h.parent c p hparent.1, fun c s hlink => h.link c s hlink.1⟩

theorem unmark (h : Remnant g label codes codeList pic) :
    Remnant g label codes codeList pic.unmark := by
  refine h.rewrite fun c ps hps => ?_
  obtain ⟨n, flag, mark, hn, hrough, hcodes, -⟩ := hps
  exact ⟨n, flag, false, hn, hrough.unmarked, hcodes, nofun⟩

theorem count (h : Remnant g label codes codeList pic) (test : String → Prop) :
    Remnant g label codes codeList (pic.count test) := by
  refine h.setWhere fun c ps _ hps => ?_
  obtain ⟨n, flag, mark, hn, hrough, hcodes, hrelevant⟩ := hps
  exact ⟨n, flag, mark, hn, hrough.counted _, hcodes, hrelevant⟩

/-- More data ask for more, so what is left of a build stays within bounds. -/
theorem mono {g' : Graph} {codes' : List String} (h : Remnant g label codes codeList pic)
    (hnodes : g'.nodesWithLabel label = g.nodesWithLabel label)
    (hup : ∀ a, g.label? a = some label → ∀ b, g'.Up a b ↔ g.Up a b)
    (hcodes : ∀ c ∈ codes, c ∈ codes') : Remnant g' label codes' codeList pic := by
  have hparent : ∀ c p, g.CodeParent label c p → g'.CodeParent label c p := by
    rintro c p ⟨n, hn, m, hm, hup', hc, hp⟩
    have hlabel := Graph.mem_idsWithLabel.1 (List.mem_map_of_mem hn)
    exact ⟨n, hnodes ▸ hn, m, hnodes ▸ hm, (hup n.id hlabel m.id).2 hup', hc, hp⟩
  have hsource : ∀ c, g'.source? label c = g.source? label c := by
    intro c
    unfold Graph.source?
    rw [hnodes]
  refine ⟨fun c ps hps => ?_, fun c p hp => hparent c p (h.parent c p hp), ?_⟩
  · obtain ⟨n, flag, mark, hn, hrough, hflag, hmark⟩ := h.clone c ps hps
    refine ⟨n, flag, mark, (hsource c).trans hn, hrough, fun h => hcodes c (hflag h), fun h => ?_⟩
    obtain ⟨d, ⟨hd, hd'⟩, hchain⟩ := hmark h
    exact ⟨d, ⟨hcodes d hd, hnodes.symm ▸ hd'⟩, ReflTransGen.mono hparent _ _ hchain⟩
  · rw [hnodes]
    exact h.link

/-! ## The milestones -/

variable (g label codes codeList pic)

/-- Every source has a clone that is linked to it. -/
structure Cloned : Prop extends Remnant g label codes codeList pic where
  full : ∀ c, (g.source? label c).isSome → (pic.properties c).isSome
  linked : ∀ n ∈ g.nodesWithLabel label, pic.link n.cloneCode n.id

/-- Every source has a clone, and all parent edges are repeated. -/
structure Related : Prop extends Remnant g label codes codeList pic where
  full : ∀ c, (g.source? label c).isSome → (pic.properties c).isSome
  related : ∀ c p, g.CodeParent label c p → pic.parent c p

/-- Besides, there are no links. -/
structure Unlinked : Prop extends Related g label codes codeList pic where
  cut : ∀ c s, ¬ pic.link c s

/-- Besides, what has data is flagged. -/
structure Flagged : Prop extends Unlinked g label codes codeList pic where
  flags : ∀ c ∈ codes, (pic.properties c).isSome → pic.HasData c

/-- Besides, what is relevant is marked. -/
structure Marked : Prop extends Flagged g label codes codeList pic where
  kept : ∀ c, g.Relevant label codes c → pic.Stays c

/-- What is relevant is there, flagged and with its parent edges, and nothing else is. -/
structure Trimmed : Prop extends Remnant g label codes codeList pic where
  present : ∀ c, (pic.properties c).isSome ↔ g.Relevant label codes c
  parents : ∀ c p, pic.parent c p ↔
    g.CodeParent label c p ∧ g.Relevant label codes c ∧ g.Relevant label codes p
  cut : ∀ c s, ¬ pic.link c s
  flags : ∀ c ∈ codes, (pic.properties c).isSome → pic.HasData c

/-- Besides, all of it is marked. -/
structure Pruned : Prop extends Trimmed g label codes codeList pic where
  kept : ∀ c, g.Relevant label codes c → pic.Stays c

/-- Besides, none of it is marked. -/
structure Cleared : Prop extends Trimmed g label codes codeList pic where
  clear : ∀ c, ¬ pic.Stays c

/-- Besides, the children are counted. -/
structure Counted : Prop extends Cleared g label codes codeList pic where
  counts : ∀ c ps, pic.properties c = some ps →
    ps.get? Property.numberOfChildren = some (pic.childCount c)

variable {g label codes codeList pic}

theorem toCloned (h : Remnant g label codes codeList pic) :
    Cloned g label codes codeList (pic.clone codeList false (g.nodesWithLabel label)) := by
  refine ⟨h.cloned, fun c hc => ?_, fun n hn => Picture.link_clone.2 (Or.inr ⟨n, hn, rfl, rfl⟩)⟩
  rw [Picture.properties_clone, Option.isSome_or]
  show (_ || (Option.map _ (g.source? label c)).isSome) = true
  rw [Option.isSome_map, hc, Bool.or_true]

theorem Cloned.toRelated (h : Cloned g label codes codeList pic) :
    Related g label codes codeList (pic.relate g.Up (g.idsWithLabel label)) := by
  refine ⟨h.toRemnant.related, h.full, ?_⟩
  rintro c p ⟨n, hn, m, hm, hup, rfl, rfl⟩
  exact Or.inr ⟨n.id, List.mem_map_of_mem hn, m.id, hup, h.linked n hn, h.linked m hm⟩

/-- Repeating the parent edges once more adds none. -/
theorem Related.again (h : Related g label codes codeList pic) :
    Related g label codes codeList (pic.relate g.Up (g.idsWithLabel label)) :=
  ⟨h.toRemnant.related, h.full, fun c p hp => Or.inl (h.related c p hp)⟩

theorem Related.toUnlinked (h : Related g label codes codeList pic) :
    Unlinked g label codes codeList (pic.unlink fun _ => True) :=
  ⟨⟨h.toRemnant.unlinked _, h.full, h.related⟩, fun _ _ hlink => hlink.2 trivial⟩

theorem Unlinked.toFlagged (h : Unlinked g label codes codeList pic) :
    Flagged g label codes codeList
      (pic.setWhere (· ∈ codes) Property.hasData fun _ => .bool true) := by
  refine ⟨⟨⟨h.toRemnant.flagged, fun c hc => ?_, h.related⟩, h.cut⟩, fun c hc hsome => ?_⟩
  · exact Picture.isSome_rewrite.2 (h.full c hc)
  · obtain ⟨ps, hps⟩ := Option.isSome_iff_exists.1 (Picture.isSome_rewrite.1 hsome)
    refine ⟨_, (Picture.properties_setWhere hc).trans (congrArg _ hps), ?_⟩
    rw [Table.get?_insert, if_pos rfl]
    rfl

theorem Flagged.toMarked (h : Flagged g label codes codeList pic) :
    Marked g label codes codeList pic.mark := by
  refine ⟨⟨⟨⟨h.toRemnant.mark, fun c hc => ?_, h.related⟩, h.cut⟩, fun c hc hsome => ?_⟩, ?_⟩
  · exact Picture.isSome_rewrite.2 (h.full c hc)
  · exact (Picture.hasData_setWhere (by decide)).2 (h.flags c hc (Picture.isSome_rewrite.1 hsome))
  · rintro c ⟨d, ⟨hd, hsource⟩, hchain⟩
    -- the chain that makes the code relevant is there among the clones
    have hmarked : pic.Marked c := ⟨d, h.flags d hd (h.full d (Graph.source?_isSome.2 hsource)),
      ReflTransGen.mono h.related _ _ hchain⟩
    have hrelevant : g.Relevant label codes c := ⟨d, ⟨hd, hsource⟩, hchain⟩
    obtain ⟨ps, hps⟩ := Option.isSome_iff_exists.1
      (h.full c (Graph.source?_isSome.2 hrelevant.source))
    exact ⟨_, (Picture.properties_setWhere hmarked).trans (congrArg _ hps),
      Picture.isMarked_insert ps⟩

/-- What is marked is all that pruning leaves. -/
theorem stays_prune {c : String} : pic.prune.Stays c ↔ pic.Stays c := by
  unfold Picture.Stays Picture.prune
  simp only [Option.filter_eq_some_iff, and_assoc, and_self]

theorem isSome_prune {c : String} : (pic.prune.properties c).isSome ↔ pic.Stays c := by
  rw [Option.isSome_iff_exists]
  unfold Picture.Stays Picture.prune
  simp only [Option.filter_eq_some_iff]

theorem hasData_prune {c : String} (hc : pic.Stays c) (hdata : pic.HasData c) :
    pic.prune.HasData c := by
  obtain ⟨ps, hps, hmark⟩ := hc
  obtain ⟨qs, hqs, hflag⟩ := hdata
  rw [hps] at hqs
  cases hqs
  exact ⟨ps, Option.filter_eq_some_iff.2 ⟨hps, hmark⟩, hflag⟩

/-- Pruning leaves just what is relevant, once that is marked and linked. -/
theorem pruned (h : Remnant g label codes codeList pic)
    (hkept : ∀ c, g.Relevant label codes c → pic.Stays c)
    (hrelated : ∀ c p, g.Relevant label codes c → g.Relevant label codes p →
      g.CodeParent label c p → pic.parent c p)
    (hcut : ∀ c s, ¬ pic.link c s)
    (hflags : ∀ c ∈ codes, (pic.properties c).isSome → pic.HasData c) :
    Pruned g label codes codeList pic.prune := by
  have hstays : ∀ c, pic.Stays c ↔ g.Relevant label codes c := fun c => ⟨h.stays, hkept c⟩
  refine ⟨⟨h.prune, fun c => isSome_prune.trans (hstays c), fun c p => ?_,
    fun c s hlink => hcut c s hlink.1, fun c hc hsome => ?_⟩,
    fun c hc => stays_prune.2 (hkept c hc)⟩
  · show pic.parent c p ∧ pic.Stays c ∧ pic.Stays p ↔ _
    rw [hstays, hstays]
    exact and_congr_left fun hends => ⟨h.parent c p, hrelated c p hends.1 hends.2⟩
  · have hstay : pic.Stays c := isSome_prune.1 hsome
    obtain ⟨ps, hps, -⟩ := isSome_prune.1 hsome
    exact hasData_prune hstay (hflags c hc (Option.isSome_iff_exists.2 ⟨ps, hps⟩))

theorem Marked.toPruned (h : Marked g label codes codeList pic) :
    Pruned g label codes codeList pic.prune :=
  h.toRemnant.pruned h.kept (fun c p _ _ => h.related c p) h.cut h.flags

/-- Pruning once more removes nothing. -/
theorem Pruned.again (h : Pruned g label codes codeList pic) :
    Pruned g label codes codeList pic.prune :=
  h.toRemnant.pruned h.kept (fun c p hc hp hparent => (h.parents c p).2 ⟨hparent, hc, hp⟩)
    h.cut h.flags

theorem Trimmed.toCleared (h : Trimmed g label codes codeList pic) :
    Cleared g label codes codeList pic.unmark := by
  refine ⟨⟨h.toRemnant.unmark, fun c => Picture.isSome_rewrite.trans (h.present c), h.parents,
    h.cut, fun c hc hsome => ?_⟩, ?_⟩
  · refine (Picture.hasData_rewrite fun ps => ?_).2 (h.flags c hc (Picture.isSome_rewrite.1 hsome))
    rw [Table.get?_erase, if_neg (by decide)]
  · rintro c ⟨ps, hps, hmark⟩
    obtain ⟨old, -, rfl⟩ := Option.map_eq_some_iff.1 hps
    unfold Picture.isMarked at hmark
    rw [Table.get?_erase, if_pos rfl] at hmark
    cases hmark

theorem Cleared.toCounted (h : Cleared g label codes codeList pic) :
    Counted g label codes codeList (pic.count fun _ => True) := by
  refine ⟨⟨⟨h.toRemnant.count _, fun c => Picture.isSome_rewrite.trans (h.present c), h.parents,
    h.cut, fun c hc hsome => ?_⟩, fun c hstay => ?_⟩, fun c ps hps => ?_⟩
  · exact (Picture.hasData_setWhere (by decide)).2
      (h.flags c hc (Picture.isSome_rewrite.1 hsome))
  · exact h.clear c ((Picture.stays_setWhere (by decide)).1 hstay)
  · rw [Picture.properties_count_all] at hps
    obtain ⟨old, -, rfl⟩ := Option.map_eq_some_iff.1 hps
    rw [Table.get?_insert, if_pos rfl]
    rfl

/-- The last milestone is the hierarchy that is wanted. -/
theorem Counted.eq_instanceOf (h : Counted g (NodeLabel.generic codeList) codes codeList pic) :
    pic = g.instanceOf codes codeList := by
  apply Picture.ext
  · funext c
    by_cases hc : g.Relevant (NodeLabel.generic codeList) codes c
    · rw [Graph.properties_instanceOf hc]
      have hsome := (h.present c).2 hc
      obtain ⟨ps, hps⟩ := Option.isSome_iff_exists.1 hsome
      obtain ⟨n, flag, mark, hn, hrough, hflag, -⟩ := h.clone c ps hps
      have hdata : flag = decide (c ∈ codes) := by
        rw [Bool.eq_iff_iff, decide_eq_true_eq]
        refine ⟨hflag, fun hcodes => ?_⟩
        obtain ⟨qs, hqs, hset⟩ := h.flags c hcodes hsome
        rw [hps] at hqs
        cases hqs
        rw [hrough.hasData] at hset
        exact Option.some.inj hset
      have hmark : mark = false := by
        rw [← hrough.isMarked, Bool.eq_false_iff]
        exact fun hmark => h.clear c ⟨ps, hps, hmark⟩
      have hchildren : { k | pic.parent k c } =
          g.childCodes (NodeLabel.generic codeList) codes c := by
        ext k
        exact (h.parents k c).trans ⟨fun hk => ⟨hk.1, hk.2.1⟩, fun hk => ⟨hk.1, hk.2, hc⟩⟩
      rw [hps, hn]
      subst hdata hmark
      refine congrArg some (Table.ext_get? fun k => ?_)
      rw [Graph.get?_instanceProperties]
      by_cases hk : Property.numberOfChildren = k
      · subst hk
        rw [if_pos rfl, h.counts c ps hps, Picture.childCount, hchildren]
      · rw [if_neg hk, hrough k fun h => hk h.symm]
        by_cases hremain : k = Property.remain
        · subst hremain
          rw [if_pos rfl, Graph.get?_cloneProperties]
          rfl
        · rw [if_neg hremain]
    · rw [Graph.properties_instanceOf_of_not hc, ← Option.not_isSome_iff_eq_none, h.present]
      exact hc
  · funext c p
    exact propext (h.parents c p)
  · funext c s
    exact propext ⟨fun hlink => h.cut c s hlink, fun hlink => hlink.elim⟩

end Remnant
end InstanceHierarchy
