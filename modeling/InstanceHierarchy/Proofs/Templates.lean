import InstanceHierarchy.Proofs.Blanking

/-!
# The structure of statements

A statement is laid out in fragments: fixed words, labels and values.  Values are escaped, so they
never change the structure of a statement, whatever they are.  Labels are written as they are: a
statement has the structure of its kind exactly when each of its labels stays between the marks of
its language.  In Cypher that forbids backticks in a label; in Gremlin it forbids quotes that no
backslash precedes, and a backslash at the end that escapes the closing quote.
-/

namespace InstanceHierarchy

namespace Operation

/-- The operation with every text left out: operations of one kind, with lists of the same lengths
and the same flag, have the same form. -/
def form : Operation → Operation
  | .mutation m => .mutation <|
      match m with
      | .constrain _ => .constrain ⟨"", ""⟩
      | .cloneList _ _ => .cloneList ⟨"", ""⟩ ""
      | .cloneSources _ _ ids hasData => .cloneSources ⟨"", ""⟩ "" (ids.map fun _ => "") hasData
      | .relateList _ _ => .relateList ⟨"", ""⟩ ""
      | .relateSources _ ids => .relateSources ⟨"", ""⟩ (ids.map fun _ => "")
      | .copyOrder _ ids => .copyOrder "" (ids.map fun _ => "")
      | .linkCode _ _ _ => .linkCode "" "" ""
      | .unlinkClones _ => .unlinkClones ⟨"", ""⟩
      | .unlinkSources ids => .unlinkSources (ids.map fun _ => "")
      | .countChildren _ => .countChildren ⟨"", ""⟩
      | .countChildrenOf ids => .countChildrenOf (ids.map fun _ => "")
      | .flagData _ codes => .flagData ⟨"", ""⟩ (codes.map fun _ => "")
      | .markRemaining _ => .markRemaining ⟨"", ""⟩
      | .dropUnmarked _ => .dropUnmarked ⟨"", ""⟩
      | .clearMarks _ => .clearMarks ⟨"", ""⟩
  | .query q => .query <|
      match q with
      | .countNodes _ => .countNodes ⟨"", ""⟩
      | .dataCodes _ => .dataCodes ⟨"", ""⟩
      | .nodeIds _ => .nodeIds ⟨"", ""⟩
      | .genericIds _ codes => .genericIds "" (codes.map fun _ => "")
      | .ancestryIds _ codes => .ancestryIds "" (codes.map fun _ => "")
      | .roots _ => .roots ⟨"", ""⟩
      | .element _ _ => .element ⟨"", ""⟩ ""
      | .children _ _ => .children ⟨"", ""⟩ ""
      | .ancestry _ _ => .ancestry ⟨"", ""⟩ ""
      | .countCodes _ => .countCodes ""
      | .codes _ => .codes ""
      | .code _ _ => .code "" ""
      | .codesOrder _ codes => .codesOrder "" (codes.map fun _ => "")

end Operation

namespace Dialect

/-- The mark that labels stand between. -/
def labelMark : Dialect → Char
  | gremlin => '\''
  | cypher => '`'

/-- The fragments of an operation's statement. -/
def fragments : Dialect → Operation → List Statement.Fragment
  | gremlin => Statement.Gremlin.ofOperation
  | cypher => Statement.Cypher.ofOperation

theorem render_eq (d : Dialect) (op : Operation) :
    d.render op = Statement.joinFragments (String.singleton d.labelMark) (d.fragments op) := by
  cases d <;> rfl

theorem mark_labelMark (d : Dialect) : d.Mark d.labelMark := by
  cases d <;> simp [mark_iff, labelMark]

theorem mark_quote (d : Dialect) : d.Mark '\'' := mark_iff.2 (Or.inl rfl)

instance (d : Dialect) (m : Char) : Decidable (d.Mark m) :=
  inferInstanceAs (Decidable (_ ≠ _))

end Dialect

instance (d : Dialect) : (p : Piece) → Decidable (p.Sound d)
  | .plain _ => inferInstanceAs (Decidable (_ ∧ _))
  | .filled .. => inferInstanceAs (Decidable (Dialect.Mark _ _))

instance (d : Dialect) : (p : Piece) → Decidable (p.Sits d)
  | .plain _ => inferInstanceAs (Decidable True)
  | .filled .. => inferInstanceAs (Decidable (Dialect.Within _ _ _))

namespace Statement.Fragment

open Piece

/-- A label stays between the marks of its language. -/
def Contained (d : Dialect) : Fragment → Prop
  | label s => d.Within (d.read .outside d.labelMark) s.toList
  | _ => True

instance (d : Dialect) : (f : Fragment) → Decidable (f.Contained d)
  | label _ => inferInstanceAs (Decidable (Dialect.Within _ _ _))
  | words _ | value _ | values _ => inferInstanceAs (Decidable True)

/-- The pieces of fixed words.  `held` is what follows an opening quote that is not closed yet. -/
def cut : (held : Option (List Char)) → List Char → List Piece
  | _, [] => []
  | none, c :: rest => if c = '\'' then cut (some []) rest else .plain c :: cut none rest
  | some held, c :: rest =>
      if c = '\'' then .filled '\'' held :: cut none rest else cut (some (held ++ [c])) rest

/-- The pieces of a fragment. -/
def pieces (d : Dialect) : Fragment → List Piece
  | words w => cut none w.toList
  | label s => [.filled d.labelMark s.toList]
  | value s => [.filled '\'' (escape s.toList)]
  | values xs =>
      [Piece.plain ','].intercalate (xs.map fun x => [.filled '\'' (escape x.toList)])

/-- The fragment without its label or values. -/
def form : Fragment → Fragment
  | words w => words w
  | label _ => label ""
  | value _ => value ""
  | values xs => values (xs.map fun _ => "")

/-- The words are read in their pieces. -/
def Legible (d : Dialect) : Fragment → Prop
  | words w =>
      written (cut none w.toList) = w.toList ∧ ∀ p ∈ cut none w.toList, p.Sound d ∧ p.Sits d
  | _ => True

/-- What matters of a fragment for the layout. -/
inductive Mold where
  | words (cs : List Char)
  | label
  | values

def mold : Fragment → Mold
  | words w => .words w.toList
  | label _ => .label
  | value _ | values _ => .values

/-- Look for a filling behind some characters: they are given back, with those that were passed, if
there is none; else the answer is whether it settles. -/
def settle (d : Dialect) (passed : List Char) : List Piece → Except Bool (List Char)
  | [] => .ok passed
  | .plain c :: ps => settle d (passed ++ [c]) ps
  | .filled m contents :: _ =>
      .error (decide (m = '\'' ∧ d.Within .literal contents ∧ contents ≠ passed))

/-- The words behind some characters settle. -/
def settled (d : Dialect) (passed : List Char) : List Mold → Bool
  | [] => true
  | .words cs :: rest =>
      match settle d passed (cut none cs) with
      | .ok passed => settled d passed rest
      | .error b => b
  | _ => false

/-- Words are read in their pieces, and words that settle follow the labels in quotes. -/
def laidOut (d : Dialect) : List Mold → Bool
  | [] => true
  | .words cs :: rest =>
      decide (written (cut none cs) = cs) &&
        (cut none cs).all (fun p => decide (p.Sound d ∧ p.Sits d)) && laidOut d rest
  | .label :: rest => (d.labelMark != '\'' || settled d [] rest) && laidOut d rest
  | .values :: rest => laidOut d rest

variable {d : Dialect}

theorem pieces_values_cons_cons (x y : String) (xs : List String) :
    (values (x :: y :: xs)).pieces d =
      .filled '\'' (escape x.toList) :: .plain ',' :: (values (y :: xs)).pieces d := rfl

/-- Values that follow each other are escaped, with commas between them. -/
theorem sits_values (xs : List String) : ∀ p ∈ (values xs).pieces d, p.Sound d ∧ p.Sits d := by
  have hvalue : ∀ x : String, (Piece.filled '\'' (escape x.toList)).Sound d ∧
      (Piece.filled '\'' (escape x.toList)).Sits d :=
    fun x => ⟨d.mark_quote, Dialect.within_escape _⟩
  have hcomma : (Piece.plain ',').Sound d ∧ (Piece.plain ',').Sits d := by
    cases d <;> decide
  induction xs with
  | nil => exact nofun
  | cons x xs ih =>
      cases xs with
      | nil => exact List.forall_mem_singleton.2 (hvalue x)
      | cons y xs =>
          rw [pieces_values_cons_cons]
          exact List.forall_mem_cons.2 ⟨hvalue x, List.forall_mem_cons.2 ⟨hcomma, ih⟩⟩

theorem toList_quote (x : String) :
    (quote x).toList = (Piece.filled '\'' (escape x.toList)).text := by
  simp [quote, Piece.text]

theorem written_values (xs : List String) :
    written ((values xs).pieces d) = (quoteList xs).toList := by
  induction xs with
  | nil => rfl
  | cons x xs ih =>
      cases xs with
      | nil => simp [quoteList, toList_quote, pieces]
      | cons y xs =>
          rw [pieces_values_cons_cons, written_cons, written_cons, ih]
          simp [quoteList, toList_quote, Piece.text]

theorem settles_append {passed passed' : List Char} {ps rest : List Piece}
    (h : settle d passed ps = .ok passed') (hrest : Settles d passed' rest) :
    Settles d passed (ps ++ rest) := by
  induction ps generalizing passed with
  | nil => exact (Except.ok.inj h) ▸ hrest
  | cons p ps ih =>
      cases p with
      | plain c => exact ih h
      | filled m contents => cases h

theorem settles_append_of_error {passed : List Char} {ps : List Piece} (rest : List Piece)
    (h : settle d passed ps = .error true) : Settles d passed (ps ++ rest) := by
  induction ps generalizing passed with
  | nil => cases h
  | cons p ps ih =>
      cases p with
      | plain c => exact ih h
      | filled m contents =>
          have hsettles := Except.error.inj h
          exact of_decide_eq_true (p := m = '\'' ∧ _) hsettles

theorem settles_of_settled {fs : List Fragment} {passed : List Char}
    (h : settled d passed (fs.map mold) = true) : Settles d passed (fs.flatMap (pieces d)) := by
  induction fs generalizing passed with
  | nil => trivial
  | cons f fs ih =>
      cases f with
      | words w =>
          rw [List.map_cons, mold, settled] at h
          rw [List.flatMap_cons]
          cases hsettle : settle d passed (cut none w.toList) with
          | ok passed' =>
              rw [hsettle] at h
              exact settles_append hsettle (ih h)
          | error b =>
              rw [hsettle] at h
              obtain rfl : b = true := h
              exact settles_append_of_error _ hsettle
      | label | value | values => cases h

theorem orderly_append {ps rest : List Piece} (hps : ∀ p ∈ ps, p.Sits d) (hrest : Orderly d rest) :
    Orderly d (ps ++ rest) := by
  induction ps with
  | nil => exact hrest
  | cons p ps ih =>
      have htail := ih fun q hq => hps q (List.mem_cons_of_mem p hq)
      cases p with
      | plain c => exact htail
      | filled m contents =>
          refine ⟨?_, htail⟩
          rintro rfl
          exact Or.inl (hps _ List.mem_cons_self)

theorem legible_of_laidOut {fs : List Fragment} (h : laidOut d (fs.map mold) = true) :
    ∀ f ∈ fs, f.Legible d := by
  induction fs with
  | nil => exact nofun
  | cons f fs ih =>
      cases f with
      | words w =>
          simp only [List.map_cons, mold, laidOut, Bool.and_eq_true, decide_eq_true_eq,
            List.all_eq_true] at h
          exact List.forall_mem_cons.2 ⟨h.1, ih h.2⟩
      | label s =>
          rw [List.map_cons, mold, laidOut, Bool.and_eq_true] at h
          exact List.forall_mem_cons.2 ⟨trivial, ih h.2⟩
      | value s | values xs => exact List.forall_mem_cons.2 ⟨trivial, ih h⟩

theorem written_pieces {f : Fragment} (h : f.Legible d) :
    written (f.pieces d) = (f.text (String.singleton d.labelMark)).toList := by
  cases f with
  | words w => exact h.1
  | label s => simp [pieces, Piece.text, text]
  | value s => simp [pieces, text, toList_quote]
  | values xs => exact written_values xs

theorem sound_pieces {f : Fragment} (h : f.Legible d) : ∀ p ∈ f.pieces d, p.Sound d := by
  cases f with
  | words w => exact fun p hp => (h.2 p hp).1
  | label s => exact List.forall_mem_singleton.2 d.mark_labelMark
  | value s => exact List.forall_mem_singleton.2 d.mark_quote
  | values xs => exact fun p hp => (sits_values xs p hp).1

theorem sits_pieces_iff {f : Fragment} (h : f.Legible d) :
    (∀ p ∈ f.pieces d, p.Sits d) ↔ f.Contained d := by
  cases f with
  | words w => exact iff_of_true (fun p hp => (h.2 p hp).2) trivial
  | label s => exact List.forall_mem_singleton
  | value s =>
      exact iff_of_true (List.forall_mem_singleton.2 (Dialect.within_escape _)) trivial
  | values xs => exact iff_of_true (fun p hp => (sits_values xs p hp).2) trivial

theorem orderly_of_laidOut {fs : List Fragment} (h : laidOut d (fs.map mold) = true) :
    Orderly d (fs.flatMap (pieces d)) := by
  induction fs with
  | nil => trivial
  | cons f fs ih =>
      have hlegible := legible_of_laidOut h f List.mem_cons_self
      rw [List.flatMap_cons]
      cases f with
      | words w =>
          rw [List.map_cons, mold, laidOut, Bool.and_eq_true] at h
          exact orderly_append ((sits_pieces_iff hlegible).2 trivial) (ih h.2)
      | label s =>
          rw [List.map_cons, mold, laidOut, Bool.and_eq_true] at h
          refine ⟨fun hm => Or.inr ?_, ih h.2⟩
          have hsettled := h.1
          rw [hm] at hsettled
          exact settles_of_settled hsettled
      | value s | values xs =>
          exact orderly_append ((sits_pieces_iff hlegible).2 trivial) (ih h)

/-- The label and the values of a fragment do not show. -/
theorem emptied_pieces_form (f : Fragment) :
    (f.form.pieces d).map emptied = (f.pieces d).map emptied := by
  cases f with
  | words w => rfl
  | label s => rfl
  | value s => rfl
  | values xs =>
      induction xs with
      | nil => rfl
      | cons x xs ih =>
          cases xs with
          | nil => rfl
          | cons y xs =>
              rw [pieces_values_cons_cons]
              exact congrArg (fun rest => _ :: _ :: rest) ih

/-- A text that was laid out is closed and shows the structure of its fragments exactly when its
labels stay between their marks. -/
theorem read_joinFragments_iff {fs : List Fragment} (h : laidOut d (fs.map mold) = true) :
    d.Closed (joinFragments (String.singleton d.labelMark) fs) ∧
        d.seen .outside (joinFragments (String.singleton d.labelMark) fs).toList =
          written ((fs.flatMap (pieces d)).map emptied) ↔
      ∀ f ∈ fs, f.Contained d := by
  have hlegible := legible_of_laidOut h
  have hwritten : (joinFragments (String.singleton d.labelMark) fs).toList =
      written (fs.flatMap (pieces d)) := by
    have hparts : ∀ f ∈ fs, (f.text (String.singleton d.labelMark)).toList =
        written (f.pieces d) := fun f hf => (written_pieces (hlegible f hf)).symm
    rw [joinFragments, String.toList_join, List.flatMap_map, written, List.flatMap_assoc]
    exact List.flatMap_congr hparts
  have hsound : ∀ p ∈ fs.flatMap (pieces d), p.Sound d := by
    intro p hp
    obtain ⟨f, hf, hmem⟩ := List.mem_flatMap.1 hp
    exact sound_pieces (hlegible f hf) p hmem
  unfold Dialect.Closed
  rw [hwritten, read_written_iff hsound (orderly_of_laidOut h)]
  constructor
  · intro hsits f hf
    exact (sits_pieces_iff (hlegible f hf)).1 fun p hp =>
      hsits p (List.mem_flatMap.2 ⟨f, hf, hp⟩)
  · intro hcontained p hp
    obtain ⟨f, hf, hmem⟩ := List.mem_flatMap.1 hp
    exact (sits_pieces_iff (hlegible f hf)).2 (hcontained f hf) p hmem

/-- Only the form of fragments decides which structure they have. -/
theorem emptied_eq_of_form {fs fs' : List Fragment} (h : fs.map form = fs'.map form) :
    (fs.flatMap (pieces d)).map emptied = (fs'.flatMap (pieces d)).map emptied := by
  have hform : ∀ fs : List Fragment, (fs.flatMap (pieces d)).map emptied =
      (fs.map form).flatMap fun f => (f.pieces d).map emptied := by
    intro fs
    rw [List.map_flatMap, List.flatMap_map]
    exact List.flatMap_congr fun f _ => (emptied_pieces_form f).symm
  rw [hform, h, ← hform]

end Statement.Fragment

/-! ## The statements of operations -/

open Statement

namespace Dialect

/-- The marks of the language enclose every label of an operation's statement. -/
def Encloses (d : Dialect) (op : Operation) : Prop := ∀ f ∈ d.fragments op, f.Contained d

instance (d : Dialect) (op : Operation) : Decidable (d.Encloses op) :=
  inferInstanceAs (Decidable (∀ f ∈ d.fragments op, f.Contained d))

theorem toString_bool (b : Bool) : toString b = if b then "true" else "false" := by
  cases b <;> rfl

theorem map_empty_map_empty (xs : List String) :
    (xs.map fun _ => "").map (fun _ => "") = xs.map fun _ => "" :=
  List.map_map

/-- Every statement in Gremlin is laid out, and only the form of the operation decides which form
its fragments have. -/
theorem laidOut_gremlin (op : Operation) :
    Fragment.laidOut .gremlin ((Gremlin.ofOperation op).map Fragment.mold) = true ∧
      (Gremlin.ofOperation op.form).map Fragment.form =
        (Gremlin.ofOperation op).map Fragment.form := by
  cases op with
  | mutation m =>
      cases m with
      | cloneSources key codeList ids hasData =>
          cases hasData <;>
            simp only [Operation.form, Gremlin.ofOperation, Gremlin.ofMutation, Gremlin.among,
              Gremlin.mergeClone, List.map_append, List.map_cons, List.map_nil, Fragment.mold,
              Fragment.form, map_empty_map_empty, and_true, String.toList_append, toString_bool,
              Bool.false_eq_true, if_true, if_false] <;>
            repeat rw [String.toList_ofList]
          all_goals decide +kernel
      | _ =>
          simp only [Operation.form, Gremlin.ofOperation, Gremlin.ofMutation, Gremlin.having,
            Gremlin.among, Gremlin.mergeClone, Gremlin.relate, Gremlin.withCodes, List.map_append,
            List.map_cons, List.map_nil, Fragment.mold, Fragment.form, map_empty_map_empty,
            and_true, String.toList_append, toString_bool, Bool.false_eq_true, if_false]
          repeat rw [String.toList_ofList]
          decide +kernel
  | query q =>
      cases q <;>
        simp only [Operation.form, Gremlin.ofOperation, Gremlin.ofQuery, Gremlin.having,
          Gremlin.idCodeRows, Gremlin.codeRows, Gremlin.withCodes, List.map_append, List.map_cons,
          List.map_nil, Fragment.mold, Fragment.form, map_empty_map_empty, and_true,
          String.toList_append] <;>
        repeat rw [String.toList_ofList]
      all_goals decide +kernel

/-- Every statement in Cypher is laid out, and only the form of the operation decides which form
its fragments have. -/
theorem laidOut_cypher (op : Operation) :
    Fragment.laidOut .cypher ((Cypher.ofOperation op).map Fragment.mold) = true ∧
      (Cypher.ofOperation op.form).map Fragment.form =
        (Cypher.ofOperation op).map Fragment.form := by
  cases op with
  | mutation m =>
      cases m with
      | cloneSources key codeList ids hasData =>
          cases hasData <;>
            simp only [Operation.form, Cypher.ofOperation, Cypher.ofMutation, Cypher.nodeWith,
              Cypher.mergeClone, List.map_append, List.map_cons, List.map_nil, Fragment.mold,
              Fragment.form, map_empty_map_empty, and_true, String.toList_append, toString_bool,
              Bool.false_eq_true, if_true, if_false] <;>
            repeat rw [String.toList_ofList]
          all_goals decide +kernel
      | _ =>
          simp only [Operation.form, Cypher.ofOperation, Cypher.ofMutation, Cypher.node,
            Cypher.nodeWith, Cypher.mergeClone, Cypher.relate, List.map_append,
            List.map_cons, List.map_nil, Fragment.mold, Fragment.form, map_empty_map_empty,
            and_true, String.toList_append, toString_bool, Bool.false_eq_true, if_false]
          repeat rw [String.toList_ofList]
          decide +kernel
  | query q =>
      cases q <;>
        simp only [Operation.form, Cypher.ofOperation, Cypher.ofQuery, Cypher.node,
          Cypher.nodeWith, Cypher.usedBy, List.map_append, List.map_cons,
          List.map_nil, Fragment.mold, Fragment.form, map_empty_map_empty, and_true,
          String.toList_append] <;>
        repeat rw [String.toList_ofList]
      all_goals decide +kernel

theorem laidOut_fragments (d : Dialect) (op : Operation) :
    Fragment.laidOut d ((d.fragments op).map Fragment.mold) = true := by
  cases d with
  | gremlin => exact (laidOut_gremlin op).1
  | cypher => exact (laidOut_cypher op).1

theorem form_fragments (d : Dialect) (op : Operation) :
    (d.fragments op.form).map Fragment.form = (d.fragments op).map Fragment.form := by
  cases d with
  | gremlin => exact (laidOut_gremlin op).2
  | cypher => exact (laidOut_cypher op).2

/-- The statements of two operations of the same form, of which one has its labels enclosed: its
literals and names are all closed, and the other one's are so, in a text of the same structure,
exactly when its labels are enclosed, too.  Values make no difference. -/
theorem render_structure (d : Dialect) {op op' : Operation} (hform : op.form = op'.form)
    (hencloses : d.Encloses op') :
    d.Closed (d.render op') ∧
      (d.Closed (d.render op) ∧ d.blanked (d.render op) = d.blanked (d.render op') ↔
        d.Encloses op) := by
  have hread : ∀ op, _ := fun op => Fragment.read_joinFragments_iff (d.laidOut_fragments op)
  have hstructure := Fragment.emptied_eq_of_form (d := d) <| show
      (d.fragments op).map Fragment.form = (d.fragments op').map Fragment.form by
    rw [← d.form_fragments op, ← d.form_fragments op', hform]
  obtain ⟨hclosed, hseen⟩ := (hread op').2 hencloses
  rw [← render_eq] at hclosed hseen
  refine ⟨hclosed, ?_⟩
  rw [blanked, blanked, String.ofList_inj, hseen, ← hstructure, render_eq d op]
  exact hread op

/-- Codes with all kinds of marks in them leave a statement its structure. -/
theorem render_structure_marks :
    let op := Operation.query (.element ⟨"it's", "x"⟩ "o'n\\e `'")
    let op' := Operation.query (.element ⟨"i", "x"⟩ "one")
    op.form = op'.form ∧ Encloses .cypher op' ∧ Closed .cypher (render .cypher op') ∧
      (Closed .cypher (render .cypher op) ∧
          blanked .cypher (render .cypher op) = blanked .cypher (render .cypher op') ↔
        Encloses .cypher op) ∧
      Encloses .cypher op := by
  intro op op'
  have hform : op.form = op'.form := rfl
  have hencloses : Encloses .cypher op' := by decide +kernel
  obtain ⟨hclosed, hiff⟩ := render_structure .cypher hform hencloses
  exact ⟨hform, hencloses, hclosed, hiff, by decide +kernel⟩

/-- The name of a dimension may hold a whole step of a traversal, which the statement then takes,
and an odd mark leaves the statement open. -/
theorem dimension_breaks_out :
    (Operation.query (.countNodes ⟨"i", "x').drop().V('"⟩)).form =
        (Operation.query (.countNodes ⟨"i", "x"⟩)).form ∧
      blanked .gremlin (render .gremlin (.query (.countNodes ⟨"i", "x').drop().V('"⟩))) =
        "g.V().hasLabel('').drop().V('').count()" ∧
      blanked .gremlin (render .gremlin (.query (.countNodes ⟨"i", "x"⟩))) =
        "g.V().hasLabel('').count()" ∧
      ¬ Closed .gremlin (render .gremlin (.query (.countNodes ⟨"i", "x'"⟩))) ∧
      ¬ Closed .cypher (render .cypher (.query (.countNodes ⟨"i", "x`"⟩))) :=
  ⟨rfl, by decide +kernel, by decide +kernel, by decide +kernel, by decide +kernel⟩

end Dialect
end InstanceHierarchy
