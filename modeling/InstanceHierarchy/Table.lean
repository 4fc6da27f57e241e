/-!
# Tables keyed by text

A table holds each key once, with its entries in ascending key order, so two tables are equal as
soon as they answer every lookup alike (`Table.ext_get?`).  The operations on bare entry lists come
first: they are total on every list and keep the order of an ordered one.
-/

namespace InstanceHierarchy

universe u v

/-- Keys with their values, in the order they are held. -/
abbrev Entries (α : Type u) := List (String × α)

namespace Entries

variable {α : Type u}

theorem lt_or_gt_of_ne {a b : String} (h : a ≠ b) : a < b ∨ b < a := by
  rcases Classical.em (a < b) with hl | hl
  · exact .inl hl
  · exact .inr (String.not_le.1 fun hle => h (String.le_antisymm hle (String.not_lt.1 hl)))

theorem ne_of_lt {a b : String} (h : a < b) : a ≠ b := fun e => String.lt_irrefl b (e ▸ h)

/-- The entries are in ascending key order, and no key occurs twice. -/
abbrev Ordered (es : Entries α) : Prop := es.Pairwise fun a b => a.1 < b.1

/-- The value held under a key; the first one if the list repeats the key. -/
def get? (k : String) : Entries α → Option α
  | [] => none
  | e :: rest => if e.1 = k then some e.2 else get? k rest

/-- Put a value under a key: in place of the old one, or before the first greater key. -/
def insert (k : String) (v : α) : Entries α → Entries α
  | [] => [(k, v)]
  | e :: rest =>
      if k < e.1 then (k, v) :: e :: rest
      else if e.1 = k then (k, v) :: rest
      else e :: insert k v rest

theorem mem_insert {k : String} {v : α} {e : String × α} {es : Entries α}
    (h : e ∈ insert k v es) : e = (k, v) ∨ e ∈ es := by
  induction es with
  | nil => simpa [insert] using h
  | cons f rest ih =>
      rw [insert] at h
      split at h
      · simpa using h
      · split at h
        · rcases List.mem_cons.1 h with rfl | h
          · exact .inl rfl
          · exact .inr (List.mem_cons_of_mem _ h)
        · rcases List.mem_cons.1 h with rfl | h
          · exact .inr List.mem_cons_self
          · exact (ih h).imp id (List.mem_cons_of_mem _)

theorem insert_ordered (k : String) (v : α) {es : Entries α} (h : es.Ordered) :
    (insert k v es).Ordered := by
  induction es with
  | nil => simp [insert]
  | cons e rest ih =>
      obtain ⟨head, tail⟩ := List.pairwise_cons.1 h
      rw [insert]
      split
      · rename_i hk
        refine List.pairwise_cons.2 ⟨fun b hb => ?_, h⟩
        rcases List.mem_cons.1 hb with rfl | hb
        · exact hk
        · exact String.lt_trans hk (head b hb)
      · split
        · rename_i _ heq
          subst heq
          exact List.pairwise_cons.2 ⟨head, tail⟩
        · rename_i hlt hne
          refine List.pairwise_cons.2 ⟨fun b hb => ?_, ih tail⟩
          rcases mem_insert hb with rfl | hb
          · exact (lt_or_gt_of_ne hne).resolve_right hlt
          · exact head b hb

theorem get?_insert (k k' : String) (v : α) (es : Entries α) :
    get? k' (insert k v es) = if k = k' then some v else get? k' es := by
  induction es with
  | nil => simp [insert, get?]
  | cons e rest ih =>
      rw [insert]
      split
      · simp [get?]
      · split
        · rename_i _ heq
          by_cases hk : k = k' <;> simp [get?, heq, hk]
        · rename_i _ hne
          by_cases he : e.1 = k'
          · have : k ≠ k' := fun h => hne (he.trans h.symm)
            simp [get?, he, this]
          · simp [get?, he, ih]

theorem get?_eq_none_of_lt {k : String} {es : Entries α} (h : ∀ e ∈ es, k < e.1) :
    get? k es = none := by
  induction es with
  | nil => rfl
  | cons e rest ih =>
      have hne : e.1 ≠ k := fun he => String.lt_irrefl k (he ▸ h e List.mem_cons_self)
      simp [get?, hne, ih fun f hf => h f (List.mem_cons_of_mem _ hf)]

theorem mem_of_get? {k : String} {v : α} {es : Entries α} (h : get? k es = some v) :
    (k, v) ∈ es := by
  induction es with
  | nil => simp [get?] at h
  | cons e rest ih =>
      rw [get?] at h
      split at h
      · rename_i hk
        obtain rfl : e.2 = v := by simpa using h
        exact hk ▸ List.mem_cons_self
      · exact List.mem_cons_of_mem _ (ih h)

theorem get?_of_mem {e : String × α} {es : Entries α} (ho : es.Ordered) (h : e ∈ es) :
    get? e.1 es = some e.2 := by
  induction es with
  | nil => simp at h
  | cons f rest ih =>
      obtain ⟨head, tail⟩ := List.pairwise_cons.1 ho
      rcases List.mem_cons.1 h with rfl | h
      · simp [get?]
      · simp [get?, ne_of_lt (head e h), ih tail h]

/-- Ordered entry lists that answer every lookup alike are the same list. -/
theorem ext_get? {es fs : Entries α} (he : es.Ordered) (hf : fs.Ordered)
    (h : ∀ k, get? k es = get? k fs) : es = fs := by
  induction es generalizing fs with
  | nil =>
      cases fs with
      | nil => rfl
      | cons f _ => simpa [get?] using h f.1
  | cons e es ih =>
      cases fs with
      | nil => simpa [get?] using h e.1
      | cons f fs =>
          obtain ⟨headE, tailE⟩ := List.pairwise_cons.1 he
          obtain ⟨headF, tailF⟩ := List.pairwise_cons.1 hf
          have hkey : e.1 = f.1 := by
            apply Classical.byContradiction
            intro hne
            rcases lt_or_gt_of_ne hne with hlt | hlt
            · have hl := h e.1
              have hn : get? e.1 (f :: fs) = none := get?_eq_none_of_lt fun g hg => by
                rcases List.mem_cons.1 hg with rfl | hg
                · exact hlt
                · exact String.lt_trans hlt (headF g hg)
              rw [hn] at hl
              simp [get?] at hl
            · have hl := h f.1
              have hn : get? f.1 (e :: es) = none := get?_eq_none_of_lt fun g hg => by
                rcases List.mem_cons.1 hg with rfl | hg
                · exact hlt
                · exact String.lt_trans hlt (headE g hg)
              rw [hn] at hl
              simp [get?] at hl
          have hval : e.2 = f.2 := by simpa [get?, hkey] using h e.1
          have hhead : e = f := Prod.ext hkey hval
          subst hhead
          refine congrArg (e :: ·) (ih tailE tailF fun k => ?_)
          by_cases hk : e.1 = k
          · subst hk
            rw [get?_eq_none_of_lt headE, get?_eq_none_of_lt headF]
          · simpa [get?, hk] using h k

end Entries

/-- A finite map from text keys to values. -/
structure Table (α : Type u) where
  entries : Entries α
  ordered : entries.Ordered
  deriving DecidableEq

namespace Table

variable {α : Type u} {β : Type v}

/-- The table without entries. -/
def empty : Table α := ⟨[], .nil⟩

instance : Inhabited (Table α) := ⟨empty⟩

/-- The value held under a key. -/
def get? (t : Table α) (k : String) : Option α := t.entries.get? k

/-- Whether a key is held. -/
def contains (t : Table α) (k : String) : Bool := (t.get? k).isSome

/-- The keys, ascending. -/
def keys (t : Table α) : List String := t.entries.map (·.1)

/-- The number of entries. -/
def size (t : Table α) : Nat := t.entries.length

def isEmpty (t : Table α) : Bool := t.entries.isEmpty

/-- Put a value under a key, in place of the one it held before. -/
def insert (t : Table α) (k : String) (v : α) : Table α :=
  ⟨t.entries.insert k v, Entries.insert_ordered k v t.ordered⟩

/-- Drop the entries a test rejects. -/
def filter (t : Table α) (keep : String → α → Bool) : Table α :=
  ⟨t.entries.filter fun e => keep e.1 e.2, t.ordered.filter _⟩

/-- Drop a key. -/
def erase (t : Table α) (k : String) : Table α := t.filter fun k' _ => k' ≠ k

/-- Replace every value by its image. -/
def mapValues (t : Table α) (f : String → α → β) : Table β :=
  ⟨t.entries.map fun e => (e.1, f e.1 e.2),
    List.pairwise_map.2 (t.ordered.imp fun {_ _} h => h)⟩

/-- Replace the value under one key by its image; without the key nothing changes. -/
def modify (t : Table α) (k : String) (f : α → α) : Table α :=
  t.mapValues fun k' v => if k' = k then f v else v

/-- Insert the pairs of a list from left to right, so a later pair wins. -/
def insertAll (t : Table α) (pairs : List (String × α)) : Table α :=
  pairs.foldl (fun acc e => acc.insert e.1 e.2) t

/-- The table of a list of pairs, of which a later one wins. -/
def ofList (pairs : List (String × α)) : Table α := empty.insertAll pairs

/-- All entries of both tables; the right one wins. -/
def union (t s : Table α) : Table α := t.insertAll s.entries

theorem ext_get? {t s : Table α} (h : ∀ k, t.get? k = s.get? k) : t = s := by
  cases t with
  | mk es he =>
      cases s with
      | mk fs hf =>
          obtain rfl := Entries.ext_get? he hf h
          rfl

@[simp] theorem get?_empty (k : String) : (empty : Table α).get? k = none := rfl

theorem get?_insert (t : Table α) (k k' : String) (v : α) :
    (t.insert k v).get? k' = if k = k' then some v else t.get? k' :=
  Entries.get?_insert k k' v t.entries

theorem get?_eq_some_iff {t : Table α} {k : String} {v : α} :
    t.get? k = some v ↔ (k, v) ∈ t.entries :=
  ⟨Entries.mem_of_get?, fun h => Entries.get?_of_mem t.ordered h⟩

theorem get?_filter (t : Table α) (keep : String → α → Bool) (k : String) :
    (t.filter keep).get? k = (t.get? k).filter (keep k) := by
  apply Option.ext
  intro v
  rw [get?_eq_some_iff, Option.filter_eq_some_iff, get?_eq_some_iff]
  simp [filter]

theorem get?_erase (t : Table α) (k k' : String) :
    (t.erase k).get? k' = if k = k' then none else t.get? k' := by
  rw [erase, get?_filter]
  by_cases h : k = k'
  · subst h
    cases t.get? k <;> simp [Option.filter]
  · have h' : k' ≠ k := fun e => h e.symm
    cases t.get? k' <;> simp [Option.filter, h, h']

theorem get?_mapValues (t : Table α) (f : String → α → β) (k : String) :
    (t.mapValues f).get? k = (t.get? k).map (f k) := by
  show Entries.get? k (t.entries.map fun e => (e.1, f e.1 e.2)) =
    (Entries.get? k t.entries).map (f k)
  induction t.entries with
  | nil => rfl
  | cons e rest ih =>
      by_cases h : e.1 = k
      · subst h
        simp [Entries.get?]
      · simp [Entries.get?, h, ih]

theorem get?_modify (t : Table α) (k k' : String) (f : α → α) :
    (t.modify k f).get? k' = if k = k' then (t.get? k').map f else t.get? k' := by
  rw [modify, get?_mapValues]
  by_cases h : k = k'
  · subst h
    simp
  · have h' : k' ≠ k := fun e => h e.symm
    simp [h, h']

end Table

/-- A finite set of texts, as the table that holds each of them. -/
abbrev TextSet := Table Unit

namespace TextSet

/-- The set of a list's members. -/
def ofList (xs : List String) : TextSet := Table.ofList (xs.map fun x => (x, ()))

/-- The members, ascending. -/
abbrev toList (s : TextSet) : List String := s.keys

end TextSet

/-- The keys of a table as a set. -/
def Table.keySet {α : Type u} (t : Table α) : TextSet := t.mapValues fun _ _ => ()

end InstanceHierarchy
