import InstanceHierarchy.Batch.Scheduler
import InstanceHierarchy.Table
import Mathlib.Data.List.Basic
import Mathlib.Data.List.Dedup
import Mathlib.Data.List.Perm.Basic

/-!
# What tables and batches hold

A table made of pairs holds what the pairs say, whatever their order, as long as no two of them
contradict each other.  The chunks of a list hold what the list holds.
-/

namespace InstanceHierarchy

variable {α : Type}

namespace Table

theorem mem_keys {t : Table α} {k : String} : k ∈ t.keys ↔ ∃ v, t.get? k = some v := by
  unfold keys
  rw [List.mem_map]
  constructor
  · rintro ⟨e, he, rfl⟩
    exact ⟨e.2, get?_eq_some_iff.2 he⟩
  · rintro ⟨v, hv⟩
    exact ⟨(k, v), get?_eq_some_iff.1 hv, rfl⟩

/-- Every key of a table is listed once. -/
theorem nodup_keys (t : Table α) : t.keys.Nodup := by
  unfold keys
  exact List.pairwise_map.2 (t.ordered.imp fun h => Entries.ne_of_lt h)

theorem contains_iff {t : Table α} {k : String} : t.contains k = true ↔ ∃ v, t.get? k = some v :=
  Option.isSome_iff_exists

/-- Pairs that follow one function add what they say to a table that follows it too. -/
theorem get?_insertAll {f : String → α} {pairs : List (String × α)} {t : Table α}
    (hpairs : ∀ e ∈ pairs, e.2 = f e.1) (ht : ∀ k v, t.get? k = some v → v = f k) (k : String)
    (v : α) : (t.insertAll pairs).get? k = some v ↔ (k, v) ∈ pairs ∨ t.get? k = some v := by
  induction pairs generalizing t with
  | nil => simp [insertAll]
  | cons e rest ih =>
      have hcons : t.insertAll (e :: rest) = (t.insert e.1 e.2).insertAll rest := rfl
      have he : e.2 = f e.1 := hpairs e List.mem_cons_self
      rw [hcons, ih (fun e' h' => hpairs e' (List.mem_cons_of_mem _ h')), get?_insert,
        List.mem_cons, or_comm (a := (k, v) = e), or_assoc]
      · refine or_congr_right ?_
        split
        · rename_i hk
          subst hk
          constructor
          · intro hv
            exact Or.inl (Prod.ext rfl (Option.some.inj hv).symm)
          · rintro (hv | hv)
            · exact congrArg (fun p => some p.2) hv.symm
            · rw [he, ht _ _ hv]
        · rename_i hk
          constructor
          · exact Or.inr
          · rintro (rfl | hv)
            · exact absurd rfl hk
            · exact hv
      · intro k' v' hv'
        rw [get?_insert] at hv'
        split at hv'
        · rename_i hk
          rw [← Option.some.inj hv', ← hk]
          exact he
        · exact ht k' v' hv'

/-- A table that is laid over another one wins. -/
theorem get?_union_or (t s : Table α) (k : String) :
    (t.union s).get? k = (s.get? k).or (t.get? k) := by
  have key : ∀ (es : Entries α) (t : Table α), es.Ordered →
      (t.insertAll es).get? k = (es.get? k).or (t.get? k) := by
    intro es
    induction es with
    | nil => exact fun t _ => rfl
    | cons e rest ih =>
        intro t hes
        obtain ⟨hhead, htail⟩ := List.pairwise_cons.1 hes
        have hcons : t.insertAll (e :: rest) = (t.insert e.1 e.2).insertAll rest := rfl
        rw [hcons, ih _ htail, get?_insert, Entries.get?]
        by_cases hk : e.1 = k
        · -- the key comes once among ascending ones
          subst hk
          simp [Entries.get?_eq_none_of_lt hhead]
        · simp [hk]
  exact key s.entries t s.ordered

/-- A table is made of its entries. -/
theorem ofList_entries (t : Table α) : ofList t.entries = t := by
  refine ext_get? fun k => ?_
  show (empty.union t).get? k = t.get? k
  rw [get?_union_or, get?_empty, Option.or_none]

/-- Two tables that follow one function hold together what each of them holds. -/
theorem get?_union {f : String → α} {t s : Table α} (ht : ∀ k v, t.get? k = some v → v = f k)
    (hs : ∀ k v, s.get? k = some v → v = f k) (k : String) (v : α) :
    (t.union s).get? k = some v ↔ t.get? k = some v ∨ s.get? k = some v := by
  rw [get?_union_or]
  cases hsk : s.get? k with
  | none => simp
  | some w =>
      have hw := hs k w hsk
      constructor
      · exact fun h => Or.inr h
      · rintro (h | h)
        · rw [ht k v h, hw]
          rfl
        · exact h

theorem mem_keySet {t : Table α} {k : String} : k ∈ t.keySet.toList ↔ k ∈ t.keys := by
  show k ∈ t.keySet.keys ↔ _
  unfold keySet
  rw [mem_keys, mem_keys]
  simp only [get?_mapValues, Option.map_eq_some_iff]
  constructor
  · rintro ⟨_, v, hv, -⟩
    exact ⟨v, hv⟩
  · rintro ⟨v, hv⟩
    exact ⟨(), v, hv, trivial⟩

end Table

theorem TextSet.mem_ofList {xs : List String} {x : String} :
    x ∈ (TextSet.ofList xs).toList ↔ x ∈ xs := by
  show x ∈ (Table.ofList (xs.map fun x => (x, ()))).keys ↔ _
  unfold Table.ofList
  rw [Table.mem_keys]
  simp only [Table.get?_insertAll (f := fun _ => ()) (fun _ _ => rfl) (fun _ _ _ => rfl)]
  simp

theorem TextSet.perm_dedup (xs : List String) : (TextSet.ofList xs).toList.Perm xs.dedup := by
  refine (List.perm_ext_iff_of_nodup (Table.nodup_keys _) xs.nodup_dedup).2 fun x => ?_
  rw [TextSet.mem_ofList, List.mem_dedup]

/-! ## Chunks -/

theorem flatten_chunks (size : Nat) (xs : List α) : (chunks size xs).flatten = xs := by
  induction xs using chunks.induct size with
  | case1 => simp [chunks]
  | case2 x rest ih =>
      rw [chunks, List.flatten_cons, ih, List.cons_append, List.take_append_drop]

theorem ne_nil_of_mem_chunks {size : Nat} {xs chunk : List α} (h : chunk ∈ chunks size xs) :
    chunk ≠ [] := by
  induction xs using chunks.induct size with
  | case1 => simp [chunks] at h
  | case2 x rest ih =>
      rw [chunks] at h
      rcases List.mem_cons.1 h with rfl | h
      · simp
      · exact ih h

theorem length_le_of_mem_chunks {size : Nat} {xs chunk : List α} (h : chunk ∈ chunks size xs) :
    chunk.length ≤ max size 1 := by
  induction xs using chunks.induct size with
  | case1 => simp [chunks] at h
  | case2 x rest ih =>
      rw [chunks] at h
      rcases List.mem_cons.1 h with rfl | h
      · simp only [List.length_cons, List.length_take]
        omega
      · exact ih h

/-- There are as many chunks as full ones are needed to hold the list. -/
theorem length_chunks {size : Nat} (hsize : 0 < size) (xs : List α) :
    (chunks size xs).length = (xs.length + size - 1) / size := by
  induction xs using chunks.induct size with
  | case1 =>
      rw [chunks, List.length_nil, List.length_nil, Nat.div_eq_of_lt (by omega)]
  | case2 x rest ih =>
      rw [chunks, List.length_cons, ih, List.length_drop, List.length_cons]
      by_cases hfull : size - 1 ≤ rest.length
      · have hleft : rest.length - (size - 1) + size - 1 = rest.length := by omega
        have hall : rest.length + 1 + size - 1 = rest.length + size := by omega
        rw [hleft, hall, Nat.add_div_right _ hsize]
      · -- the first chunk holds the whole list
        have hleft : (rest.length - (size - 1) + size - 1) / size = 0 :=
          Nat.div_eq_of_lt (by omega)
        have hall : (rest.length + 1 + size - 1) / size = 1 :=
          Nat.div_eq_of_lt_le (by omega) (by omega)
        rw [hleft, hall]

/-- What a list holds is in one of its chunks, and no chunk holds more. -/
theorem mem_split {s : BatchScheduler} {xs : List α} {x : α} :
    (∃ chunk ∈ s.split xs, x ∈ chunk) ↔ x ∈ xs := by
  unfold BatchScheduler.split
  rw [← List.mem_flatten, flatten_chunks]

/-- What holds of a member of some batch of the distinct texts of a list holds of a member of the
list. -/
theorem exists_split {s : BatchScheduler} {texts : List String} {p : String → Prop} :
    (∃ batch ∈ s.split (TextSet.ofList texts).toList, ∃ x ∈ batch, p x) ↔ ∃ x ∈ texts, p x := by
  constructor
  · rintro ⟨batch, hbatch, x, hx, hp⟩
    exact ⟨x, TextSet.mem_ofList.1 (mem_split.1 ⟨batch, hbatch, hx⟩), hp⟩
  · rintro ⟨x, hx, hp⟩
    obtain ⟨batch, hbatch, hmem⟩ := (mem_split (s := s)).2 (TextSet.mem_ofList.2 hx)
    exact ⟨batch, hbatch, x, hmem, hp⟩

/-- Members of a mapped list in another order are those of the list itself in another order. -/
theorem exists_map_of_perm {β : Type} {f : α → β} {ys : List β} {xs : List α}
    (h : ys.Perm (xs.map f)) : ∃ order : List α, ys = order.map f ∧ order.Perm xs := by
  have hcomp := congrFun (congrFun (List.eq_map_comp_perm f) ys) xs
  exact (iff_of_eq hcomp).2 h

end InstanceHierarchy
