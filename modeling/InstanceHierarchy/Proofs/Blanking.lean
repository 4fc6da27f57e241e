import InstanceHierarchy.Statement.Basic
import Mathlib.Data.List.Basic

/-!
# Blanked texts

A statement text is read from left to right.  What stands between the marks of a literal or a name
is blanked out; what is left, the marks included, is the structure of the statement.  A text that
was laid out in pieces, each plain or filled in between two marks, is read in just these pieces
when every filling stays between its marks.  The converse needs more: where a filling breaks out,
the text has another structure, if what comes after it does not conspire with it.  Values that are
escaped never break out; labels are written as they are.
-/

namespace InstanceHierarchy

/-- Where a reader of a statement text is. -/
inductive Spot where
  | outside
  /-- In a literal. -/
  | literal
  /-- In a literal, behind a backslash that escapes the next character. -/
  | escaped
  /-- In a name. -/
  | name
  deriving DecidableEq

namespace Dialect

/-- Read one character.  Literals stand between single quotes and have escapes; Cypher has names
between backticks as well, without escapes. -/
def read (d : Dialect) : Spot → Char → Spot
  | .outside, c =>
      if c = '\'' then .literal else if d = .cypher ∧ c = '`' then .name else .outside
  | .literal, c => if c = '\\' then .escaped else if c = '\'' then .outside else .literal
  | .escaped, _ => .literal
  | .name, c => if c = '`' then .outside else .name

/-- Where a reader is behind a text. -/
def reach (d : Dialect) (s : Spot) : List Char → Spot
  | [] => s
  | c :: rest => d.reach (d.read s c) rest

/-- The characters of a text that stand outside, and the marks. -/
def seen (d : Dialect) (s : Spot) : List Char → List Char
  | [] => []
  | c :: rest =>
      if s = .outside ∨ d.read s c = .outside then c :: d.seen (d.read s c) rest
      else d.seen (d.read s c) rest

/-- Every literal and every name of a text is closed. -/
def Closed (d : Dialect) (text : String) : Prop := d.reach .outside text.toList = .outside

instance (d : Dialect) (text : String) : Decidable (d.Closed text) :=
  inferInstanceAs (Decidable (_ = _))

/-- A text with the contents of all its literals and names left out. -/
def blanked (d : Dialect) (text : String) : String := String.ofList (d.seen .outside text.toList)

/-- A mark opens a literal or a name. -/
def Mark (d : Dialect) (m : Char) : Prop := d.read .outside m ≠ .outside

/-- A text that begins in a literal or a name stays in it. -/
def Within (d : Dialect) (s : Spot) (text : List Char) : Prop :=
  d.reach s text = s ∧ d.seen s text = []

instance (d : Dialect) (s : Spot) (text : List Char) : Decidable (d.Within s text) :=
  inferInstanceAs (Decidable (_ ∧ _))

variable {d : Dialect} {s : Spot} {m : Char}

theorem reach_append (x y : List Char) : d.reach s (x ++ y) = d.reach (d.reach s x) y := by
  induction x generalizing s with
  | nil => rfl
  | cons c x ih => exact ih

theorem seen_append (x y : List Char) :
    d.seen s (x ++ y) = d.seen s x ++ d.seen (d.reach s x) y := by
  induction x generalizing s with
  | nil => rfl
  | cons c x ih =>
      simp only [List.cons_append, seen, reach, ih]
      split <;> rfl

theorem seen_cons_outside (c : Char) (rest : List Char) :
    d.seen .outside (c :: rest) = c :: d.seen (d.read .outside c) rest := by
  simp [seen]

theorem mark_iff : d.Mark m ↔ m = '\'' ∨ d = .cypher ∧ m = '`' := by
  by_cases hq : m = '\''
  · simp [Mark, read, hq]
  · by_cases hn : d = .cypher ∧ m = '`' <;> simp [Mark, read, hq, hn]

theorem Mark.ne_backslash (h : d.Mark m) : m ≠ '\\' := by
  rcases mark_iff.1 h with rfl | ⟨-, rfl⟩ <;> decide

/-- What a mark opens only the same mark closes. -/
theorem Mark.closes_iff (h : d.Mark m) (hs : s ≠ .outside) :
    d.read s m = .outside ↔ s = d.read .outside m := by
  rcases mark_iff.1 h with rfl | ⟨rfl, rfl⟩ <;> cases s <;> simp_all [read]

theorem Mark.read_outside (h : d.Mark m) : d.read (d.read .outside m) m = .outside :=
  (h.closes_iff h).2 rfl

/-- A text that closes what it begins in has a first character that does so. -/
theorem exists_closing {text : List Char} (hs : s ≠ .outside) (h : d.reach s text = .outside) :
    ∃ contents m rest, text = contents ++ m :: rest ∧ d.seen s contents = [] ∧
      d.reach s contents ≠ .outside ∧ d.read (d.reach s contents) m = .outside := by
  induction text generalizing s with
  | nil => exact absurd h hs
  | cons c text ih =>
      by_cases hc : d.read s c = .outside
      · exact ⟨[], c, text, rfl, rfl, hs, hc⟩
      · obtain ⟨contents, m, rest, rfl, hseen, hinside, hclose⟩ := ih hc h
        refine ⟨c :: contents, m, rest, rfl, ?_, hinside, hclose⟩
        simp [seen, hs, hc, hseen]

/-- A reader who has seen nothing in a literal or a name is still there. -/
theorem reach_of_seen_nil {text : List Char} (hs : s ≠ .outside) (h : d.seen s text = []) :
    (s = .name → d.reach s text = .name) ∧
      (s ≠ .name → d.reach s text = .literal ∨ d.reach s text = .escaped) := by
  induction text generalizing s with
  | nil => cases s <;> simp_all [reach]
  | cons c text ih =>
      have hc : d.read s c ≠ .outside := fun hc => by simp [seen, hc] at h
      have hrest := ih hc (by simpa [seen, hs, hc] using h)
      cases s with
      | outside => exact absurd rfl hs
      | name =>
          have : d.read .name c = .name := by
            by_cases hq : c = '`' <;> simp_all [read]
          exact ⟨fun _ => hrest.1 this, fun hne => absurd rfl hne⟩
      | literal =>
          have : d.read .literal c ≠ .name := by
            by_cases hb : c = '\\' <;> by_cases hq : c = '\'' <;> simp_all [read]
          exact ⟨nofun, fun _ => hrest.2 this⟩
      | escaped => exact ⟨nofun, fun _ => hrest.2 (by simp [read])⟩

theorem read_eq_escaped {c : Char} : d.read s c = .escaped ↔ s = .literal ∧ c = '\\' := by
  cases s <;> grind [read]

/-- Only a backslash escapes. -/
theorem exists_backslash {text : List Char} (h : d.reach s text = .escaped) (hs : s ≠ .escaped) :
    ∃ rest, text = rest ++ ['\\'] := by
  rcases List.eq_nil_or_concat text with rfl | ⟨rest, c, rfl⟩
  · exact absurd h hs
  · rw [List.concat_eq_append, reach_append] at h
    rw [List.concat_eq_append, (read_eq_escaped.1 h).2]
    exact ⟨rest, rfl⟩

/-- A mark in a text that stays between two of these marks is escaped. -/
theorem Within.escaped {x y : List Char} (hm : d.Mark m)
    (h : d.Within (d.read .outside m) (x ++ m :: y)) :
    d.reach (d.read .outside m) x = .escaped := by
  have hseen := h.2
  rw [seen_append, List.append_eq_nil_iff] at hseen
  obtain ⟨hx, hrest⟩ := hseen
  have hkind := reach_of_seen_nil hm hx
  have hopen : d.read (d.reach (d.read .outside m) x) m ≠ .outside := fun hclose => by
    simp [seen, hclose] at hrest
  have hne : d.reach (d.read .outside m) x ≠ d.read .outside m := fun heq => by
    rw [heq] at hopen
    exact hopen hm.read_outside
  rcases mark_iff.1 hm with rfl | ⟨rfl, rfl⟩
  · exact (hkind.2 (by simp [read])).resolve_left hne
  · exact absurd (hkind.1 rfl) hne

/-- Behind the escaped mark the text is in the same literal. -/
theorem Within.behind_escaped {x y : List Char} (h : d.Within .literal (x ++ '\'' :: y)) :
    d.Within .literal y := by
  have hquote : d.Mark '\'' := mark_iff.2 (Or.inl rfl)
  have hesc : d.reach .literal x = .escaped := Within.escaped (m := '\'') hquote h
  constructor
  · simpa [reach_append, hesc, reach, read] using h.1
  · have hseen := h.2
    rw [seen_append, List.append_eq_nil_iff, hesc] at hseen
    simpa [seen, read] using hseen.2

/-- Behind a text that stays between two marks the next such mark closes. -/
theorem Within.not_beyond {x e : List Char} (hm : d.Mark m)
    (hx : d.Within (d.read .outside m) x) : ¬ d.Within (d.read .outside m) (x ++ m :: e) := by
  intro h
  have hesc := h.escaped hm
  rw [hx.1] at hesc
  exact absurd (read_eq_escaped.1 hesc).1 (by decide)

/-- The first closing mark is found. -/
theorem Within.append_inj {x y rest rest' : List Char} (hm : d.Mark m)
    (hx : d.Within (d.read .outside m) x) (hy : d.Within (d.read .outside m) y)
    (h : x ++ m :: rest = y ++ m :: rest') : x = y ∧ rest = rest' := by
  rcases List.append_eq_append_iff.1 h with ⟨e, rfl, he⟩ | ⟨e, rfl, he⟩
  · cases e with
    | nil => simpa using he
    | cons c e =>
        obtain ⟨rfl, -⟩ := List.cons.inj he
        exact absurd hy (hx.not_beyond hm)
  · cases e with
    | nil => simpa using he.symm
    | cons c e =>
        obtain ⟨rfl, -⟩ := List.cons.inj he
        exact absurd hx (hy.not_beyond hm)

/-- A text that stays between two marks ends before the next of these marks that no backslash
precedes. -/
theorem Within.ends_before {before filling x y : List Char} (hm : d.Mark m)
    (hfilling : d.Within (d.read .outside m) filling) (hbefore : ∀ r, before ≠ r ++ ['\\'])
    (h : before ++ m :: x = filling ++ m :: y) : ∃ w, y = w ++ x := by
  rcases List.append_eq_append_iff.1 h with ⟨e, rfl, he⟩ | ⟨e, -, he⟩
  · cases e with
    | nil => exact ⟨[], (List.cons.inj he).2.symm⟩
    | cons c e =>
        obtain ⟨rfl, -⟩ := List.cons.inj he
        have hopen : d.read .outside m ≠ .escaped := fun hopen =>
          absurd (read_eq_escaped.1 hopen).1 (by decide)
        obtain ⟨r, hr⟩ := exists_backslash (hfilling.escaped hm) hopen
        exact absurd hr (hbefore r)
  · cases e with
    | nil => exact ⟨[], (List.cons.inj he).2⟩
    | cons c e => exact ⟨e ++ [m], by simpa using (List.cons.inj he).2⟩

theorem Within.of_cons {c : Char} {rest : List Char} (h : d.Within .literal (c :: rest))
    (hc : c ≠ '\\') : c ≠ '\'' ∧ d.Within .literal rest := by
  have hq : c ≠ '\'' := by
    rintro rfl
    exact absurd h.2 (by simp [seen, read])
  have hread : d.read .literal c = .literal := by simp [read, hc, hq]
  refine ⟨hq, ?_, ?_⟩
  · simpa [reach, hread] using h.1
  · simpa [seen, hread] using h.2

theorem Within.snoc {c : Char} {text : List Char} (h : d.Within .literal text) (hc : c ≠ '\\')
    (hq : c ≠ '\'') : d.Within .literal (text ++ [c]) := by
  have hread : d.read .literal c = .literal := by simp [read, hc, hq]
  constructor
  · rw [reach_append, h.1]
    exact hread
  · rw [seen_append, h.1, h.2]
    simp [seen, hread]

/-- In a name everything but its mark stays in it. -/
theorem within_name_iff {text : List Char} : d.Within .name text ↔ '`' ∉ text := by
  induction text with
  | nil => simp [Within, reach, seen]
  | cons c text ih =>
      by_cases hc : c = '`'
      · simp [Within, reach, seen, read, hc]
      · have hread : d.read .name c = .name := by simp [read, hc]
        simpa [Within, reach, seen, hread, Ne.symm hc] using ih

/-- An escaped value stays in its literal. -/
theorem within_escape (value : List Char) : d.Within .literal (Statement.escape value) := by
  induction value with
  | nil => exact ⟨rfl, rfl⟩
  | cons c value ih =>
      by_cases hc : c = '\\' ∨ c = '\''
      · simpa [Statement.escape, hc, Within, reach, seen, read] using ih
      · obtain ⟨hb, hq⟩ := not_or.1 hc
        have hread : d.read .literal c = .literal := by simp [read, hb, hq]
        simpa [Statement.escape, hc, Within, reach, seen, hread] using ih

end Dialect

/-! ## Texts in pieces -/

/-- A part of a text. -/
inductive Piece where
  /-- A character of the structure. -/
  | plain (c : Char)
  /-- What stands between two marks. -/
  | filled (m : Char) (contents : List Char)

namespace Piece

def text : Piece → List Char
  | plain c => [c]
  | filled m contents => m :: (contents ++ [m])

/-- The piece without what is filled in. -/
def emptied : Piece → Piece
  | plain c => plain c
  | filled m _ => filled m []

/-- The text of some pieces. -/
def written (ps : List Piece) : List Char := ps.flatMap text

@[simp] theorem written_nil : written [] = [] := rfl

@[simp] theorem written_cons (p : Piece) (ps : List Piece) :
    written (p :: ps) = p.text ++ written ps := rfl

variable {d : Dialect}

/-- What is filled in stands between marks, and the rest is neither a mark nor an escape. -/
def Sound (d : Dialect) : Piece → Prop
  | plain c => ¬ d.Mark c ∧ c ≠ '\\'
  | filled m _ => d.Mark m

/-- What is filled in stays between its marks. -/
def Sits (d : Dialect) : Piece → Prop
  | plain _ => True
  | filled m contents => d.Within (d.read .outside m) contents

/-- A text in which every filling stays between its marks is read in its pieces. -/
theorem read_written {ps : List Piece} (hsound : ∀ p ∈ ps, p.Sound d)
    (hsits : ∀ p ∈ ps, p.Sits d) :
    d.reach .outside (written ps) = .outside ∧
      d.seen .outside (written ps) = written (ps.map emptied) := by
  induction ps with
  | nil => exact ⟨rfl, rfl⟩
  | cons p ps ih =>
      obtain ⟨hreach, hseen⟩ := ih (fun q hq => hsound q (List.mem_cons_of_mem _ hq))
        fun q hq => hsits q (List.mem_cons_of_mem _ hq)
      have hp := hsound p List.mem_cons_self
      have hin := hsits p List.mem_cons_self
      cases p with
      | plain c =>
          have hc : d.read .outside c = .outside := not_not.1 hp.1
          simp [text, emptied, Dialect.reach, Dialect.seen, hc, hreach, hseen]
      | filled m contents =>
          have hm : d.Mark m := hp
          have hclose := hm.read_outside
          simp [text, emptied, Dialect.reach, Dialect.seen, Dialect.reach_append,
            Dialect.seen_append, hin.1, hin.2, hclose, hreach, hseen]

/-- A closed text that shows the structure of some pieces consists of pieces with this structure
whose fillings stay between their marks. -/
theorem exists_written {ps : List Piece} {t : List Char} (hsound : ∀ p ∈ ps, p.Sound d)
    (hreach : d.reach .outside t = .outside)
    (hseen : d.seen .outside t = written (ps.map emptied)) :
    ∃ qs : List Piece, qs.map emptied = ps.map emptied ∧ (∀ q ∈ qs, q.Sits d) ∧
      t = written qs := by
  induction ps generalizing t with
  | nil =>
      cases t with
      | nil => exact ⟨[], rfl, nofun, rfl⟩
      | cons c t => simp [Dialect.seen] at hseen
  | cons p ps ih =>
      have hrest := fun q hq => hsound q (List.mem_cons_of_mem p hq)
      have hp := hsound p List.mem_cons_self
      cases p with
      | plain c =>
          cases t with
          | nil => simp [Dialect.seen, emptied, text] at hseen
          | cons c' t =>
              have hc : d.read .outside c = .outside := not_not.1 hp.1
              rw [Dialect.seen_cons_outside] at hseen
              obtain ⟨rfl, htail⟩ := List.cons.inj hseen
              rw [Dialect.reach, hc] at hreach
              rw [hc] at htail
              obtain ⟨qs, hqs, hsits, rfl⟩ := ih hrest hreach htail
              refine ⟨plain c' :: qs, by simp [hqs, emptied], ?_, rfl⟩
              exact List.forall_mem_cons.2 ⟨trivial, hsits⟩
      | filled m contents =>
          cases t with
          | nil => simp [Dialect.seen, emptied, text] at hseen
          | cons m' t =>
              rw [Dialect.seen_cons_outside] at hseen
              obtain ⟨rfl, hopened⟩ := List.cons.inj hseen
              have hm : d.Mark m' := hp
              -- the mark opens something, and the next thing seen is what closes it
              obtain ⟨filling, close, rest, rfl, hnone, hinside, hclose⟩ :=
                Dialect.exists_closing hm hreach
              rw [Dialect.seen_append, hnone] at hopened
              simp only [Dialect.seen, hclose, or_true, if_true, List.nil_append] at hopened
              obtain ⟨rfl, htail⟩ := List.cons.inj hopened
              rw [Dialect.reach, Dialect.reach_append, Dialect.reach, hclose] at hreach
              obtain ⟨qs, hqs, hsits, rfl⟩ := ih hrest hreach htail
              refine ⟨filled close filling :: qs, by simp [hqs, emptied], ?_, by simp [text]⟩
              exact List.forall_mem_cons.2 ⟨⟨(hm.closes_iff hinside).1 hclose, hnone⟩, hsits⟩

/-- A reader who is ahead of the pieces never falls back to them: a filling that stays between its
marks ends before the next mark that no escape precedes. -/
theorem written_ne_of_ahead {ps qs : List Piece} {ahead : List Char} {last : Char}
    (hsound : ∀ p ∈ ps, p.Sound d) (hsits : ∀ q ∈ qs, q.Sits d)
    (hsame : qs.map emptied = ps.map emptied) (hlast : last ≠ '\\') :
    ahead ++ last :: written ps ≠ written qs := by
  induction ps generalizing qs ahead last with
  | nil =>
      obtain rfl := List.map_eq_nil_iff.1 hsame
      simp
  | cons p ps ih =>
      cases qs with
      | nil => simp at hsame
      | cons q qs =>
          obtain ⟨hpq, hrest⟩ := List.cons.inj hsame
          have hps := fun q hq => hsound q (List.mem_cons_of_mem p hq)
          have hqs := fun q' hq => hsits q' (List.mem_cons_of_mem q hq)
          have hp := hsound p List.mem_cons_self
          have hq := hsits q List.mem_cons_self
          intro h
          rw [written_cons, written_cons] at h
          cases p with
          | plain c =>
              cases q with
              | filled => cases hpq
              | plain c' =>
                  obtain rfl : c' = c := by simpa [emptied] using hpq
                  -- the piece is passed, and its character is now the last one ahead
                  cases ahead with
                  | nil =>
                      have htail : [] ++ c' :: written ps = written qs :=
                        (List.cons.inj h).1 ▸ (List.cons.inj h).2
                      exact ih hps hqs hrest hp.2 htail
                  | cons a ahead =>
                      have htail : (ahead ++ [last]) ++ c' :: written ps = written qs := by
                        simpa [text] using (List.cons.inj h).2
                      exact ih hps hqs hrest hp.2 htail
          | filled m contents =>
              cases q with
              | plain => cases hpq
              | filled m' filling =>
                  obtain rfl : m' = m := by simpa [emptied] using hpq
                  have hm : d.Mark m' := hp
                  have hbehind : ∃ before, (∀ r, before ≠ r ++ ['\\']) ∧
                      before ++ m' :: (contents ++ m' :: written ps) =
                        filling ++ m' :: written qs := by
                    cases ahead with
                    | nil => exact ⟨[], by simp, by simpa [text] using (List.cons.inj h).2⟩
                    | cons a ahead =>
                        refine ⟨ahead ++ [last], fun r hr => hlast ?_, ?_⟩
                        · exact (List.append_inj' hr rfl).2 |> fun h => (List.cons.inj h).1
                        · simpa [text] using (List.cons.inj h).2
                  obtain ⟨before, hbefore, heq⟩ := hbehind
                  obtain ⟨w, hw⟩ := Dialect.Within.ends_before hm hq hbefore heq
                  have htail : (w ++ contents) ++ m' :: written ps = written qs := by
                    simpa using hw.symm
                  exact ih hps hqs hrest hm.ne_backslash htail

/-- After some characters the pieces settle with a literal that is not the same as these
characters, or with no filling at all. -/
def Settles (d : Dialect) : List Char → List Piece → Prop
  | _, [] => True
  | passed, plain c :: ps => Settles d (passed ++ [c]) ps
  | passed, filled m contents :: _ =>
      m = '\'' ∧ d.Within .literal contents ∧ contents ≠ passed

/-- A reader who is behind the pieces in a literal does not catch up when the pieces settle: the
literal goes on to the next mark, and then what should stand between two marks is read outside. -/
theorem written_ne_of_behind {ps qs : List Piece} {e passed : List Char}
    (hsound : ∀ p ∈ ps, p.Sound d) (hsame : qs.map emptied = ps.map emptied)
    (hsettles : Settles d passed ps) (hpassed : d.Within .literal passed)
    (he : d.Within .literal e) : written ps ≠ e ++ '\'' :: (passed ++ written qs) := by
  have hquote : d.Mark '\'' := Dialect.mark_iff.2 (Or.inl rfl)
  induction ps generalizing qs e passed with
  | nil => simp
  | cons p ps ih =>
      cases qs with
      | nil => simp at hsame
      | cons q qs =>
          obtain ⟨hpq, hrest⟩ := List.cons.inj hsame
          have hps := fun q hq => hsound q (List.mem_cons_of_mem p hq)
          have hp := hsound p List.mem_cons_self
          intro h
          rw [written_cons, written_cons] at h
          cases p with
          | plain c =>
              cases q with
              | filled => cases hpq
              | plain c' =>
                  obtain rfl : c' = c := by simpa [emptied] using hpq
                  have hc : c' ≠ '\'' := fun hc => hp.1 (hc ▸ hquote)
                  cases e with
                  | nil => exact absurd (List.cons.inj h).1 hc
                  | cons c e =>
                      obtain ⟨rfl, htail⟩ := List.cons.inj h
                      exact ih hps hrest hsettles (hpassed.snoc hp.2 hc) (he.of_cons hp.2).2
                        (by simpa [text] using htail)
          | filled m contents =>
              cases q with
              | plain => cases hpq
              | filled m' filling =>
                  obtain rfl : m' = m := by simpa [emptied] using hpq
                  obtain ⟨rfl, hcontents, hne⟩ := hsettles
                  cases e with
                  | nil =>
                      have htail := (List.cons.inj h).2
                      have heq : contents ++ '\'' :: written ps =
                          passed ++ '\'' :: (filling ++ '\'' :: written qs) := by
                        simpa [text] using htail
                      exact hne (Dialect.Within.append_inj hquote hcontents hpassed heq).1
                  | cons c e =>
                      obtain ⟨rfl, -⟩ := List.cons.inj h
                      exact (he.of_cons (by decide)).1 rfl

/-- Where a literal may break out, the pieces after it settle. -/
def Orderly (d : Dialect) : List Piece → Prop
  | [] => True
  | plain _ :: ps => Orderly d ps
  | filled m contents :: ps =>
      (m = '\'' → d.Within .literal contents ∨ Settles d [] ps) ∧ Orderly d ps

/-- Orderly pieces are read in one way only. -/
theorem eq_of_written_eq {ps qs : List Piece} (hsound : ∀ p ∈ ps, p.Sound d)
    (horderly : Orderly d ps) (hsits : ∀ q ∈ qs, q.Sits d)
    (hsame : qs.map emptied = ps.map emptied) (h : written ps = written qs) : ps = qs := by
  induction ps generalizing qs with
  | nil => exact (List.map_eq_nil_iff.1 hsame).symm
  | cons p ps ih =>
      cases qs with
      | nil => simp at hsame
      | cons q qs =>
          obtain ⟨hpq, hrest⟩ := List.cons.inj hsame
          have hps := fun q hq => hsound q (List.mem_cons_of_mem p hq)
          have hqs := fun q' hq => hsits q' (List.mem_cons_of_mem q hq)
          have hp := hsound p List.mem_cons_self
          have hq := hsits q List.mem_cons_self
          rw [written_cons, written_cons] at h
          cases p with
          | plain c =>
              cases q with
              | filled => cases hpq
              | plain c' =>
                  obtain rfl : c' = c := by simpa [emptied] using hpq
                  rw [ih hps horderly hqs hrest (List.cons.inj h).2]
          | filled m contents =>
              cases q with
              | plain => cases hpq
              | filled m' filling =>
                  obtain rfl : m' = m := by simpa [emptied] using hpq
                  have hm : d.Mark m' := hp
                  have heq : contents ++ m' :: written ps = filling ++ m' :: written qs := by
                    simpa [text] using h
                  rcases List.append_eq_append_iff.1 heq with ⟨e, rfl, he⟩ | ⟨e, rfl, he⟩
                  · cases e with
                    | nil =>
                        rw [List.append_nil, ih hps horderly.2 hqs hrest (List.cons.inj he).2]
                    | cons c e =>
                        obtain ⟨rfl, hbehind⟩ := List.cons.inj he
                        rcases Dialect.mark_iff.1 hm with rfl | ⟨rfl, rfl⟩
                        · rcases horderly.1 rfl with hin | hsettles
                          · exact absurd hq (hin.not_beyond hm)
                          · have hne : written ps ≠ e ++ '\'' :: ([] ++ written qs) :=
                              written_ne_of_behind hps hrest hsettles ⟨rfl, rfl⟩
                                (Dialect.Within.behind_escaped hq)
                            exact absurd hbehind hne
                        · exact absurd (Dialect.within_name_iff.1 hq) (by simp)
                  · cases e with
                    | nil =>
                        rw [List.append_nil, ih hps horderly.2 hqs hrest (List.cons.inj he).2.symm]
                    | cons c e =>
                        obtain ⟨rfl, hahead⟩ := List.cons.inj he
                        exact absurd hahead.symm
                          (written_ne_of_ahead hps hqs hrest hm.ne_backslash)

/-- Orderly pieces show their structure exactly when every filling stays between its marks. -/
theorem read_written_iff {ps : List Piece} (hsound : ∀ p ∈ ps, p.Sound d)
    (horderly : Orderly d ps) :
    d.reach .outside (written ps) = .outside ∧
        d.seen .outside (written ps) = written (ps.map emptied) ↔
      ∀ p ∈ ps, p.Sits d := by
  constructor
  · rintro ⟨hreach, hseen⟩
    obtain ⟨qs, hsame, hsits, hwritten⟩ := exists_written hsound hreach hseen
    rw [eq_of_written_eq hsound horderly hsits hsame hwritten]
    exact hsits
  · exact read_written hsound

end Piece
end InstanceHierarchy
