import InstanceHierarchy.Json.Shape
import InstanceHierarchy.Proofs.Tables
import Mathlib.Data.List.Basic
import Mathlib.Data.List.Perm.Basic

/-!
# The values that stand for a record

A record is written as an object, or as the list of all its fields in their declared order.  In an
object the fields stand in any order, with unknown fields among them, and some fields may be left
out.  What is in a field may itself be written in several ways.  So a record has a set of values
that stand for it, which is known from its cells: one for each field, with the values that stand for
the field's content.  A shape reads cells when it comes to the record from each of those values;
this is known for a whole shape as soon as it is known for its fields.
-/

namespace InstanceHierarchy

/-- A field of a record that is written. -/
structure Cell where
  name : String
  /-- What is written for its content. -/
  value : Json
  /-- The values that stand for its content. -/
  Stands : Json → Prop
  stands : Stands value
  /-- An object without the field has this content. -/
  MayLack : Prop

namespace Cell

/-- A field that has to be there, with one value for its content. -/
def exact (name : String) (value : Json) : Cell := ⟨name, value, (· = value), rfl, False⟩

/-- A field with a whole number, or with null for none. -/
def place (name : String) (n : Option Int) : Cell :=
  ⟨name, .ofInt? n, (· = .ofInt? n), rfl, n = none⟩

/-- What an object holds under the name of the field. -/
def Found (c : Cell) : Option Json → Prop
  | some v => c.Stands v
  | none => c.MayLack

/-- The names of a record's fields. -/
def names (cells : List Cell) : List String := cells.map (·.name)

/-- The values that stand for a record with these cells. -/
inductive Forms (cells : List Cell) : Json → Prop where
  /-- No known field comes twice. -/
  | object (fields : Entries Json)
      (once : ((fields.map (·.1)).filter (· ∈ names cells)).Nodup)
      (found : ∀ c ∈ cells, c.Found (Entries.get? c.name fields)) : Forms cells (.obj fields)
  | list (values : List Json) (each : List.Forall₂ Stands cells values) : Forms cells (.arr values)

/-- A record that is written: the cells in their order, except for some that may be left out. -/
inductive Writes : List Cell → Entries Json → Prop where
  | nil : Writes [] []
  | put (c : Cell) {cells : List Cell} {fields : Entries Json} (rest : Writes cells fields) :
      Writes (c :: cells) ((c.name, c.value) :: fields)
  | leave (c : Cell) (h : c.MayLack) {cells : List Cell} {fields : Entries Json}
      (rest : Writes cells fields) : Writes (c :: cells) fields

end Cell

theorem Entries.get?_of_once {known : List String} {fields : Entries Json}
    (once : ((fields.map (·.1)).filter (· ∈ known)).Nodup) {e : String × Json} (he : e ∈ fields)
    (hknown : e.1 ∈ known) : Entries.get? e.1 fields = some e.2 := by
  induction fields with
  | nil => cases he
  | cons f rest ih =>
      rw [Entries.get?]
      rcases List.mem_cons.1 he with rfl | he
      · rw [if_pos rfl]
      · -- an earlier field with the name would be the same name twice
        have hmem : e.1 ∈ (rest.map (·.1)).filter (· ∈ known) :=
          List.mem_filter.2 ⟨List.mem_map.2 ⟨e, he, rfl⟩, by simpa using hknown⟩
        have hne : f.1 ≠ e.1 := by
          intro heq
          rw [List.map_cons, heq, List.filter_cons_of_pos (by simpa using hknown)] at once
          exact (List.nodup_cons.1 once).1 hmem
        rw [if_neg hne]
        refine ih (once.sublist ?_) he
        rw [List.map_cons]
        exact (List.sublist_cons_self _ _).filter _

theorem Entries.get?_eq_none_iff {fields : Entries Json} {k : String} :
    Entries.get? k fields = none ↔ k ∉ fields.map (·.1) := by
  induction fields with
  | nil => simp [Entries.get?]
  | cons e rest ih =>
      rw [List.map_cons, List.mem_cons, not_or, ← ih, Entries.get?]
      by_cases hk : e.1 = k
      · simp [hk]
      · simp [hk, Ne.symm hk]

namespace Cell

theorem mem_names {c : Cell} {cells : List Cell} (h : c ∈ cells) : c.name ∈ names cells :=
  List.mem_map.2 ⟨c, h, rfl⟩

theorem Writes.names_sublist {cells : List Cell} {own : Entries Json} (h : Writes cells own) :
    (own.map (·.1)).Sublist (names cells) := by
  induction h with
  | nil => exact List.Sublist.refl _
  | put c _ ih => exact ih.cons_cons c.name
  | leave c _ _ ih => exact ih.cons c.name

theorem Writes.found {cells : List Cell} {own : Entries Json} (h : Writes cells own)
    (hnames : (names cells).Nodup) : ∀ c ∈ cells, c.Found (Entries.get? c.name own) := by
  induction h with
  | nil => exact fun c hc => absurd hc List.not_mem_nil
  | put c₀ rest ih =>
      obtain ⟨hfresh, hnames⟩ := List.nodup_cons.1 hnames
      intro c hc
      rcases List.mem_cons.1 hc with rfl | hc
      · rw [Entries.get?, if_pos rfl]
        exact c.stands
      · have hne : c₀.name ≠ c.name := by
          intro heq
          exact hfresh (heq.symm.subst (motive := (· ∈ names _)) (mem_names hc))
        rw [Entries.get?, if_neg hne]
        exact ih hnames c hc
  | leave c₀ hlack rest ih =>
      obtain ⟨hfresh, hnames⟩ := List.nodup_cons.1 hnames
      intro c hc
      rcases List.mem_cons.1 hc with rfl | hc
      · rw [Entries.get?_eq_none_iff.2 fun hmem => hfresh (rest.names_sublist.subset hmem)]
        exact hlack
      · exact ih hnames c hc

/-- Unknown fields may be added to what is written for a record, and the fields may come in another
order. -/
theorem Writes.forms_extended {cells : List Cell} {own fields : Entries Json}
    (h : Writes cells own) (hnames : (names cells).Nodup)
    (hperm : (fields.filter fun e => e.1 ∈ names cells).Perm own) : Forms cells (.obj fields) := by
  have hkeys : (fields.map (·.1)).filter (· ∈ names cells) =
      (fields.filter fun e => e.1 ∈ names cells).map (·.1) := List.filter_map
  have once : ((fields.map (·.1)).filter (· ∈ names cells)).Nodup := by
    rw [hkeys, (hperm.map _).nodup_iff]
    exact h.names_sublist.nodup hnames
  refine .object fields once fun c hc => ?_
  have hfound := h.found hnames c hc
  have hown : Entries.get? c.name fields = Entries.get? c.name own := by
    cases hget : Entries.get? c.name own with
    | some v =>
        have hmem := List.mem_filter.1 (hperm.mem_iff.2 (Entries.mem_of_get? hget))
        exact Entries.get?_of_once once hmem.1 (mem_names hc)
    | none =>
        refine Entries.get?_eq_none_iff.2 fun hmem => ?_
        obtain ⟨e, he, hname⟩ := List.mem_map.1 hmem
        have hknown : e.1 ∈ names cells := hname ▸ mem_names hc
        have hown : e ∈ own := hperm.mem_iff.1 (List.mem_filter.2 ⟨he, decide_eq_true hknown⟩)
        exact Entries.get?_eq_none_iff.1 hget (List.mem_map.2 ⟨e, hown, hname⟩)
  rw [hown]
  exact hfound

/-- What is written for a record stands for it. -/
theorem Writes.forms {cells : List Cell} {own : Entries Json} (h : Writes cells own)
    (hnames : (names cells).Nodup) : Forms cells (.obj own) := by
  have hall : own.filter (fun e => e.1 ∈ names cells) = own :=
    List.filter_eq_self.2 fun e he =>
      decide_eq_true (h.names_sublist.subset (List.mem_map.2 ⟨e, he, rfl⟩))
  exact h.forms_extended hnames (by rw [hall])

/-- The list of all fields stands for a record. -/
theorem forms_list (cells : List Cell) : Forms cells (.arr (cells.map (·.value))) :=
  .list _ (List.forall₂_map_right_iff.2 (List.forall₂_same.2 fun c _ => c.stands))

end Cell

variable {α β : Type}

theorem DecodeError.bind_eq_ok {x : Except DecodeError α} {f : α → Except DecodeError β} {b : β} :
    x.bind f = .ok b ↔ ∃ a, x = .ok a ∧ f a = .ok b := by
  cases x <;> simp [Except.bind]

theorem DecodeError.map_eq_ok {x : Except DecodeError α} {f : α → β} {b : β} :
    x.map f = .ok b ↔ ∃ a, x = .ok a ∧ f a = b := by
  cases x <;> simp [Except.map]

/-- A list is read when its items are read, each as it is. -/
theorem Reading.list_eq_ok {read : Reading α} {values : List Json} {items : List α} :
    Reading.list read (.arr values) = .ok items ↔
      List.Forall₂ (fun v a => read v = .ok a) values items := by
  show values.mapM read = .ok items ↔ _
  induction values generalizing items with
  | nil => cases items <;> simp [Pure.pure, Except.pure]
  | cons v rest ih =>
      rw [List.mapM_cons]
      show (read v).bind (fun a => (rest.mapM read).bind fun as => .ok (a :: as)) = .ok items ↔ _
      simp only [DecodeError.bind_eq_ok, ih, Except.ok.injEq]
      constructor
      · rintro ⟨a, ha, as, has, rfl⟩
        exact .cons ha has
      · rintro (_ | ⟨ha, has⟩)
        exact ⟨_, ha, _, has, rfl⟩

namespace Shape

/-- A record is read from fields that all pass their checks. -/
theorem reading_obj {shape : Shape α} {fields : List (String × Json)} {a : α}
    (hcheck : ∀ e ∈ fields, shape.check e.1 e.2 = .ok ()) (hfields : shape.ofFields fields = .ok a)
    (record : String) : shape.reading record (.obj fields) = .ok a := by
  have hall : (fields.forM fun e => shape.check e.1 e.2) = .ok () := by
    clear hfields
    induction fields with
    | nil => rfl
    | cons e rest ih =>
        show (shape.check e.1 e.2).bind (fun _ => rest.forM fun e => shape.check e.1 e.2) = _
        rw [hcheck e List.mem_cons_self, ih fun e he => hcheck e (List.mem_cons_of_mem _ he)]
        rfl
  show (fields.forM fun e => shape.check e.1 e.2).bind (fun _ => shape.ofFields fields) = _
  rw [hall, ← hfields]
  rfl

/-- The shape comes to the record from all values that stand for it. -/
structure Reads (shape : Shape α) (a : α) (cells : List Cell) : Prop where
  check : ∀ k v, (∀ c ∈ cells, c.name = k → c.Stands v) → shape.check k v = .ok ()
  ofFields : ∀ fields, (∀ c ∈ cells, c.Found (Entries.get? c.name fields)) →
    shape.ofFields fields = .ok a
  ofItems : ∀ short taken values rest, List.Forall₂ Cell.Stands cells values →
    shape.ofItems short taken (values ++ rest) = .ok (a, rest)

namespace Reads

theorem pure (a : α) : (Pure.pure a : Shape α).Reads a [] where
  check _ _ _ := rfl
  ofFields _ _ := rfl
  ofItems short taken values rest h := by
    cases h
    rfl

theorem seq {f : Shape (α → β)} {x : Shape α} {g : α → β} {a : α} {cells cells' : List Cell}
    (hf : f.Reads g cells) (hx : x.Reads a cells') : (f <*> x).Reads (g a) (cells ++ cells') where
  check k v h := by
    show (f.check k v).bind (fun _ => x.check k v) = _
    rw [hf.check k v fun c hc => h c (List.mem_append_left _ hc)]
    exact hx.check k v fun c hc => h c (List.mem_append_right _ hc)
  ofFields fields h := by
    show (f.ofFields fields).bind (fun g => (x.ofFields fields).map g) = _
    rw [hf.ofFields fields fun c hc => h c (List.mem_append_left _ hc),
      hx.ofFields fields fun c hc => h c (List.mem_append_right _ hc)]
    rfl
  ofItems short taken values rest h := by
    have hfront := (List.forall₂_take_append values cells cells' h.flip).flip
    have hback := (List.forall₂_drop_append values cells cells' h.flip).flip
    rw [← List.take_append_drop cells.length values, List.append_assoc]
    show (f.ofItems short taken (values.take cells.length ++ _)).bind _ = _
    rw [hf.ofItems short taken _ _ hfront]
    show (x.ofItems short _ (values.drop cells.length ++ rest)).map _ = _
    rw [hx.ofItems short _ _ rest hback]
    rfl

theorem map {x : Shape α} {a : α} {cells : List Cell} (g : α → β) (hx : x.Reads a cells) :
    (g <$> x).Reads (g a) cells := (pure g).seq hx

/-- A field is read when its content is read from all values that stand for it, and it is assumed
where it may be lacking. -/
theorem field {read : Reading α} {absent : Except DecodeError α} (cut : Option α) {a : α} (c : Cell)
    (hread : ∀ v, c.Stands v → read v = .ok a) (habsent : c.MayLack → absent = .ok a) :
    (Shape.field c.name read absent cut).Reads a [c] where
  check k v h := by
    show (if k = c.name then (read v).map fun _ => () else .ok ()) = _
    split
    · rename_i hk
      rw [hread v (h c List.mem_cons_self hk.symm)]
      rfl
    · rfl
  ofFields fields h := by
    have hfound := h c List.mem_cons_self
    show (match Entries.get? c.name fields with | some v => read v | none => absent) = _
    cases hget : Entries.get? c.name fields with
    | some v =>
        rw [hget] at hfound
        exact hread v hfound
    | none =>
        rw [hget] at hfound
        exact habsent hfound
  ofItems short taken values rest h := by
    obtain ⟨v, tail, hv, htail, rfl⟩ := List.forall₂_cons_left_iff.1 h
    cases htail
    show (read v).map (fun a => (a, rest)) = _
    rw [hread v hv]
    rfl

/-- A whole record is read from the values that stand for it. -/
theorem reading {shape : Shape α} {a : α} {cells : List Cell} (h : shape.Reads a cells)
    (record : String) {v : Json} (hv : Cell.Forms cells v) : shape.reading record v = .ok a := by
  cases hv with
  | object fields once found =>
      refine reading_obj (fun e he => h.check e.1 e.2 fun c hc hname => ?_)
        (h.ofFields fields found) record
      have hfound := found c hc
      rw [hname, Entries.get?_of_once once he (hname ▸ Cell.mem_names hc)] at hfound
      exact hfound
  | list values each =>
      show (shape.ofItems _ 0 values).bind _ = _
      have hitems := h.ofItems (fun n => .tooFew n record shape.width) 0 values [] each
      rw [List.append_nil] at hitems
      rw [hitems]
      rfl

end Reads

/-- Every record that the shape comes to has a property. -/
structure Ensures (shape : Shape α) (P : α → Prop) : Prop where
  ofFields : ∀ fields a, shape.ofFields fields = .ok a → P a
  ofItems : ∀ short taken items a rest, shape.ofItems short taken items = .ok (a, rest) → P a

namespace Ensures

theorem any (shape : Shape α) : shape.Ensures fun _ => True :=
  ⟨fun _ _ _ => trivial, fun _ _ _ _ _ _ => trivial⟩

theorem seq {P : β → Prop} {Q : α → Prop} {f : Shape (α → β)} {x : Shape α}
    (hf : f.Ensures fun g => ∀ a, Q a → P (g a)) (hx : x.Ensures Q) : (f <*> x).Ensures P where
  ofFields fields b h := by
    obtain ⟨g, hg, h⟩ := DecodeError.bind_eq_ok.1 h
    obtain ⟨a, ha, rfl⟩ := DecodeError.map_eq_ok.1 h
    exact hf.ofFields fields g hg a (hx.ofFields fields a ha)
  ofItems short taken items b rest h := by
    obtain ⟨⟨g, between⟩, hg, h⟩ := DecodeError.bind_eq_ok.1 h
    obtain ⟨⟨a, rest'⟩, ha, h⟩ := DecodeError.map_eq_ok.1 h
    cases h
    exact hf.ofItems short taken items g between hg a (hx.ofItems _ _ between a rest ha)

theorem map {P : β → Prop} {Q : α → Prop} {g : α → β} {x : Shape α} (hg : ∀ a, Q a → P (g a))
    (hx : x.Ensures Q) : (g <$> x).Ensures P :=
  have hpure : (Pure.pure g : Shape (α → β)).Ensures fun g => ∀ a, Q a → P (g a) := {
    ofFields _ _ h := by cases h; exact hg
    ofItems _ _ _ _ _ h := by cases h; exact hg }
  hpure.seq hx

/-- A field has what its reading ensures, and so have the contents that are assumed without it. -/
theorem field {P : α → Prop} (name : String) {read : Reading α} {absent : Except DecodeError α}
    {cut : Option α} (hread : ∀ v a, read v = .ok a → P a) (habsent : ∀ a, absent = .ok a → P a)
    (hcut : ∀ a ∈ cut, P a) : (Shape.field name read absent cut).Ensures P where
  ofFields fields a h := by
    simp only [Shape.field] at h
    split at h
    · exact hread _ a h
    · exact habsent a h
  ofItems short taken items a rest h := by
    simp only [Shape.field] at h
    split at h
    · obtain ⟨b, hb, h⟩ := DecodeError.map_eq_ok.1 h
      cases h
      exact hread _ a hb
    · split at h
      · cases h
        exact hcut a rfl
      · cases h

theorem required {P : α → Prop} (name : String) {read : Reading α}
    (hread : ∀ v a, read v = .ok a → P a) : (Shape.required name read).Ensures P :=
  field name hread (fun _ h => nomatch h) (fun _ h => nomatch h)

theorem reading {P : α → Prop} {shape : Shape α} (h : shape.Ensures P) (record : String) {v : Json}
    {a : α} (hv : shape.reading record v = .ok a) : P a := by
  cases v with
  | obj fields =>
      obtain ⟨_, -, hfields⟩ := DecodeError.bind_eq_ok.1 hv
      exact h.ofFields fields a hfields
  | arr items =>
      obtain ⟨⟨b, rest⟩, hitems, hv⟩ := DecodeError.bind_eq_ok.1 hv
      simp only at hv
      split at hv
      · cases hv
        exact h.ofItems _ 0 items a rest hitems
      · cases hv
  | _ => cases hv

end Ensures
end Shape

/-! ## Fields -/

/-- A place can be written as a whole number and be read again. -/
def Fits64 (place : Option Int) : Prop :=
  ∀ n ∈ place, Limit.int64Min ≤ n ∧ n ≤ Limit.int64Max

theorem Json.fits64_int64? (v : Json) : Fits64 v.int64? := by
  intro n hn
  unfold int64? at hn
  split at hn
  · split at hn
    · cases hn
      assumption
    · cases hn
  · cases hn

theorem Reading.optional_int64 {n : Int} (h : Fits64 (some n)) :
    Reading.optional Reading.int64 (.int n) = .ok (some n) := by
  show (Reading.int64 (.int n)).map some = _
  rw [int64, integer, if_pos (h n rfl)]
  rfl

/-- A field with a table of values; the order of the entries does not matter. -/
def Cell.table (name : String) (t : Table Json) : Cell where
  name
  value := .ofTable t
  Stands v := ∃ fields, v = .obj fields ∧ Table.ofList fields = t
  stands := ⟨t.entries, rfl, t.ofList_entries⟩
  MayLack := t = .empty

namespace Shape.Reads

theorem text (name s : String) : (Shape.required name .text).Reads s [.exact name (.str s)] :=
  field none (.exact name (.str s)) (fun _ hv => by cases hv; rfl) False.elim

theorem bool (name : String) (b : Bool) :
    (Shape.required name .bool).Reads b [.exact name (.bool b)] :=
  field none (.exact name (.bool b)) (fun _ hv => by cases hv; rfl) False.elim

theorem int64 (name : String) {n : Int} (h : Fits64 (some n)) :
    (Shape.required name .int64).Reads n [.exact name (.int n)] :=
  field none (.exact name (.int n)) (fun _ hv => by cases hv; exact if_pos (h n rfl)) False.elim

theorem natural (name kind : String) {n greatest : Nat} (h : n ≤ greatest) :
    (Shape.required name (.natural kind greatest)).Reads n [.exact name (.int n)] := by
  refine field none (.exact name (.int n)) ?_ False.elim
  rintro _ rfl
  have hbounds : (0 : Int) ≤ n ∧ (n : Int) ≤ greatest := by omega
  show (Reading.integer kind 0 greatest (.int n)).map Int.toNat = _
  rw [Reading.integer, if_pos hbounds]
  rfl

theorem place (name : String) (cut : Option (Option Int)) {n : Option Int} (h : Fits64 n) :
    (Shape.field name (.optional .int64) (.ok none) cut).Reads n [.place name n] := by
  refine field cut (.place name n) ?_ fun hnone => by rw [hnone]
  rintro _ rfl
  cases n with
  | none => rfl
  | some n => exact Reading.optional_int64 h

theorem table (name : String) (t : Table Json) :
    (Shape.defaulted name .table .empty).Reads t [.table name t] := by
  refine field (some Table.empty) (.table name t) ?_ fun hempty => by rw [hempty]
  rintro _ ⟨fields, rfl, rfl⟩
  rfl

end Shape.Reads

theorem Reading.bounds_of_integer {kind : String} {least greatest : Int} {v : Json} {n : Int}
    (h : Reading.integer kind least greatest v = .ok n) : least ≤ n ∧ n ≤ greatest := by
  unfold integer at h
  split at h
  · split at h
    · cases h
      assumption
    · cases h
  · cases h

theorem Reading.fits64_of_int64 {v : Json} {n : Int} (h : Reading.int64 v = .ok n) :
    Fits64 (some n) := by
  intro m hm
  cases hm
  exact bounds_of_integer h

namespace Shape.Ensures

theorem int64 (name : String) : (Shape.required name .int64).Ensures fun n => Fits64 (some n) :=
  required name fun _ _ h => Reading.fits64_of_int64 h

theorem natural (name kind : String) (greatest : Nat) :
    (Shape.required name (.natural kind greatest)).Ensures (· ≤ greatest) := by
  refine required name fun v n h => ?_
  obtain ⟨m, hm, rfl⟩ := DecodeError.map_eq_ok.1 h
  have hbounds := Reading.bounds_of_integer hm
  omega

theorem place (name : String) {cut : Option (Option Int)} (hcut : ∀ n ∈ cut, n = none) :
    (Shape.field name (.optional .int64) (.ok none) cut).Ensures Fits64 := by
  have hnone : Fits64 none := fun n hn => absurd hn (Option.not_mem_none n)
  refine field name (fun v n h => ?_) (fun n h => ?_) fun n hn => ?_
  · unfold Reading.optional at h
    split at h
    · cases h
      exact hnone
    · obtain ⟨m, hm, rfl⟩ := DecodeError.map_eq_ok.1 h
      exact Reading.fits64_of_int64 hm
  · cases h
    exact hnone
  · rw [hcut n hn]
    exact hnone

end Shape.Ensures

/-! ## Formats -/

/-- How records of a type are read and written, and which of them: those whose numbers are within
their ranges. -/
structure Format (α : Type) where
  record : String
  shape : Shape α
  write : α → Json
  cells : α → List Cell
  Fits : α → Prop
  nodup_names : ∀ a, (Cell.names (cells a)).Nodup
  writes : ∀ a, ∃ own, write a = .obj own ∧ Cell.Writes (cells a) own
  reads : ∀ a, Fits a → shape.Reads a (cells a)
  ensures : shape.Ensures Fits

/-- What is written for a record is read as it, and so is everything else that stands for it. -/
structure RoundTrips (read : Reading α) (write : α → Json) (cells : α → List Cell)
    (Fits : α → Prop) : Prop where
  written : ∀ a, ∃ own, write a = .obj own ∧ Cell.Writes (cells a) own
  back : ∀ a, Fits a → read (write a) = .ok a
  /-- Among the fields that are written there may be unknown ones. -/
  extended : ∀ a, Fits a → ∀ own fields, write a = .obj own →
    (fields.filter fun e => e.1 ∈ Cell.names (cells a)).Perm own → read (.obj fields) = .ok a
  listed : ∀ a, Fits a → read (.arr ((cells a).map (·.value))) = .ok a
  /-- The records in a record may have unknown fields or be lists as well. -/
  standing : ∀ a, Fits a → ∀ v, Cell.Forms (cells a) v → read v = .ok a
  again : ∀ v a, read v = .ok a → Fits a ∧ read (write a) = .ok a

namespace Format

variable (format : Format α)

def read : Reading α := format.shape.reading format.record

theorem read_standing {a : α} (h : format.Fits a) {v : Json} (hv : Cell.Forms (format.cells a) v) :
    format.read v = .ok a := (format.reads a h).reading format.record hv

theorem forms (a : α) : Cell.Forms (format.cells a) (format.write a) := by
  obtain ⟨own, hwrite, hown⟩ := format.writes a
  rw [hwrite]
  exact hown.forms (format.nodup_names a)

theorem fits_of_read {v : Json} {a : α} (h : format.read v = .ok a) : format.Fits a :=
  format.ensures.reading format.record h

theorem roundTrips : RoundTrips format.read format.write format.cells format.Fits where
  written := format.writes
  back a h := format.read_standing h (format.forms a)
  extended a h own fields hwrite hperm := by
    obtain ⟨own', hwrite', hown⟩ := format.writes a
    obtain rfl : own' = own := Json.obj.inj (hwrite'.symm.trans hwrite)
    exact format.read_standing h (hown.forms_extended (format.nodup_names a) hperm)
  listed a h := format.read_standing h (Cell.forms_list _)
  standing a h v hv := format.read_standing h hv
  again v a h :=
    have hfits := format.fits_of_read h
    ⟨hfits, format.read_standing hfits (format.forms a)⟩

/-! ## Records in records -/

/-- A field with a record. -/
def cell (name : String) (a : α) : Cell :=
  ⟨name, format.write a, Cell.Forms (format.cells a), format.forms a, False⟩

/-- A field with a list of records. -/
def listCell (name : String) (items : List α) (MayLack : Prop) : Cell where
  name
  value := .arr (items.map format.write)
  Stands v := ∃ values, v = .arr values ∧
    List.Forall₂ (fun a v => Cell.Forms (format.cells a) v) items values
  stands :=
    ⟨_, rfl, List.forall₂_map_right_iff.2 (List.forall₂_same.2 fun a _ => format.forms a)⟩
  MayLack

theorem reads_cell (name : String) {a : α} (h : format.Fits a) :
    (Shape.required name format.read).Reads a [format.cell name a] :=
  .field none (format.cell name a) (fun _ hv => format.read_standing h hv) False.elim

theorem reads_listCell (name : String) {items : List α} (h : ∀ a ∈ items, format.Fits a)
    {MayLack : Prop} {absent : Except DecodeError (List α)} (cut : Option (List α))
    (habsent : MayLack → absent = .ok items) :
    (Shape.field name (.list format.read) absent cut).Reads items
      [format.listCell name items MayLack] := by
  refine .field cut (format.listCell name items MayLack) ?_ habsent
  rintro _ ⟨values, rfl, heach⟩
  have hboth := (List.forall₂_and_left items values).2 ⟨h, heach⟩
  exact Reading.list_eq_ok.2 (hboth.imp fun a v hav => format.read_standing hav.1 hav.2).flip

theorem ensures_list {v : Json} {items : List α} (h : Reading.list format.read v = .ok items) :
    ∀ a ∈ items, format.Fits a := by
  cases v with
  | arr values =>
      have heach := (Reading.list_eq_ok.1 h).flip
      have hfits : List.Forall₂ (fun a v => format.Fits a ∧ format.read v = .ok a) items values :=
        heach.imp fun a v hread => ⟨format.fits_of_read hread, hread⟩
      exact ((List.forall₂_and_left items values).1 hfits).1
  | _ => cases h

end Format
end InstanceHierarchy
