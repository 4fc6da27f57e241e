import InstanceHierarchy.Statement.Fragment
import Mathlib.Data.Option.Basic

/-!
# Quoted values are read back

A reader goes through a text from the left.  It takes an opening quote, lets a backslash escape the
character behind it and stops at the first quote that is not escaped.  From a quoted value and any
text behind it the reader gets back the value and that text, so a quoted value is never the
beginning of another one.  A list of values is read value by value, as long as commas follow.

Nothing is said about texts that were not written by quoting.  The reader takes some of them, since
it lets a backslash escape any character.
-/

namespace InstanceHierarchy
namespace Statement

/-- A text with a character replaced wherever it stands. -/
def replaced (old : Char) (new text : List Char) : List Char :=
  text.flatMap fun c => if c = old then new else [c]

/-- Escaping is two replacements, of the backslashes first.  After the quotes they would be doubled
also where they escape a quote. -/
theorem escape_eq_replaced (value : List Char) :
    escape value = replaced '\'' ['\\', '\''] (replaced '\\' ['\\', '\\'] value) := by
  induction value with
  | nil => rfl
  | cons c value ih =>
      unfold replaced at ih ⊢
      rw [List.flatMap_cons, List.flatMap_append, ← ih]
      by_cases hb : c = '\\'
      · subst hb
        rfl
      · by_cases hq : c = '\''
        · subst hq
          rfl
        · simp [escape, hb, hq]

/-! ## One value -/

/-- Read on behind an opening quote: the value up to the closing quote, and what follows it.  The
first character may be `escaped` by a backslash in front of the text. -/
def readValue : (escaped : Bool) → List Char → Option (List Char × List Char)
  | _, [] => none
  | true, c :: rest => (readValue false rest).map (Prod.map (c :: ·) id)
  | false, c :: rest =>
      if c = '\'' then some ([], rest)
      else if c = '\\' then readValue true rest
      else (readValue false rest).map (Prod.map (c :: ·) id)

/-- Read a value between quotes, and what follows it. -/
def readQuoted : List Char → Option (List Char × List Char)
  | [] => none
  | c :: rest => if c = '\'' then readValue false rest else none

/-- The value that a text begins with, and the rest of the text. -/
def unquote (text : String) : Option (String × String) :=
  (readQuoted text.toList).map (Prod.map String.ofList String.ofList)

theorem readValue_escape (value rest : List Char) :
    readValue false (escape value ++ '\'' :: rest) = some (value, rest) := by
  induction value with
  | nil => simp [escape, readValue]
  | cons c value ih =>
      by_cases hb : c = '\\'
      · simp [escape, readValue, hb, ih]
      · by_cases hq : c = '\''
        · simp [escape, readValue, hq, ih]
        · simp [escape, readValue, hb, hq, ih]

theorem readQuoted_quote (value : String) (rest : List Char) :
    readQuoted ((quote value).toList ++ rest) = some (value.toList, rest) := by
  simp [quote, readQuoted, readValue_escape]

theorem unquote_quote_append (value rest : String) :
    unquote (quote value ++ rest) = some (value, rest) := by
  simp [unquote, readQuoted_quote]

/-- A text begins with one quoted value at most. -/
theorem quote_append_inj {value value' rest rest' : String}
    (h : quote value ++ rest = quote value' ++ rest') : value = value' ∧ rest = rest' := by
  have hread := congrArg unquote h
  rw [unquote_quote_append, unquote_quote_append] at hread
  exact Prod.mk.inj (Option.some.inj hread)

/-! ## Lists of values -/

theorem length_readValue {escaped : Bool} {text : List Char} {read : List Char × List Char}
    (h : readValue escaped text = some read) : read.2.length < text.length := by
  fun_induction readValue escaped text generalizing read with
  | case1 => cases h
  | case2 c rest ih =>
      obtain ⟨later, hlater, rfl⟩ := Option.map_eq_some_iff.1 h
      have hlt := ih hlater
      exact Nat.lt_succ_of_lt hlt
  | case3 rest =>
      cases h
      exact Nat.lt_succ_self _
  | case4 rest _ ih => exact Nat.lt_succ_of_lt (ih h)
  | case5 c rest _ _ ih =>
      obtain ⟨later, hlater, rfl⟩ := Option.map_eq_some_iff.1 h
      have hlt := ih hlater
      exact Nat.lt_succ_of_lt hlt

theorem length_readQuoted {text : List Char} {read : List Char × List Char}
    (h : readQuoted text = some read) : read.2.length < text.length := by
  cases text with
  | nil => cases h
  | cons c rest =>
      by_cases hc : c = '\''
      · exact Nat.lt_succ_of_lt (length_readValue (by simpa [readQuoted, hc] using h))
      · simp [readQuoted, hc] at h

/-- Read a value and, as long as a comma follows, more of them. -/
def readValues (text : List Char) : Option (List (List Char) × List Char) :=
  match _ : readQuoted text with
  | none => none
  | some (value, rest) =>
      if rest.head? = some ',' then (readValues rest.tail).map (Prod.map (value :: ·) id)
      else some ([value], rest)
  termination_by text.length
  decreasing_by
    have hlt : rest.length < text.length :=
      length_readQuoted ‹readQuoted text = some (value, rest)›
    rw [List.length_tail]
    omega

/-- The values that a text begins with, and the rest of the text. -/
def unquoteList (text : String) : Option (List String × String) :=
  if text.toList.head? = some '\'' then
    (readValues text.toList).map (Prod.map (List.map String.ofList) String.ofList)
  else some ([], text)

variable {text value rest : List Char}

theorem readValues_eq (h : readQuoted text = some (value, rest)) : readValues text =
    if rest.head? = some ',' then (readValues rest.tail).map (Prod.map (value :: ·) id)
    else some ([value], rest) := by
  rw [readValues]
  split
  · next hnone =>
      rw [h] at hnone
      cases hnone
  · next hread =>
      cases h.symm.trans hread
      rfl

theorem readValues_quoteList (x : String) (xs : List String) (hlast : rest.head? ≠ some ',') :
    readValues ((quoteList (x :: xs)).toList ++ rest) =
      some ((x :: xs).map String.toList, rest) := by
  induction xs generalizing x with
  | nil =>
      have hread : readQuoted ((quoteList [x]).toList ++ rest) = some (x.toList, rest) := by
        simp [quoteList, readQuoted_quote]
      rw [readValues_eq hread, if_neg hlast]
      rfl
  | cons y xs ih =>
      have hread : readQuoted ((quoteList (x :: y :: xs)).toList ++ rest) =
          some (x.toList, ',' :: ((quoteList (y :: xs)).toList ++ rest)) := by
        rw [← readQuoted_quote]
        simp [quoteList]
      rw [readValues_eq hread, List.head?_cons, if_pos rfl, List.tail_cons, ih y]
      rfl

/-- A list of quoted values is read up to a text that goes on with neither a comma nor a value. -/
theorem unquoteList_quoteList_append (xs : List String) (rest : String)
    (hcomma : rest.toList.head? ≠ some ',') (hquote : rest.toList.head? ≠ some '\'') :
    unquoteList (quoteList xs ++ rest) = some (xs, rest) := by
  cases xs with
  | nil => simp [unquoteList, quoteList, hquote]
  | cons x xs =>
      have hhead : (quoteList (x :: xs) ++ rest).toList.head? = some '\'' := by
        cases xs <;> simp [quoteList, quote]
      rw [unquoteList, if_pos hhead, String.toList_append, readValues_quoteList x xs hcomma]
      simp [Function.comp_def]

example : unquoteList "'it\\'s','','\\\\'])" = some (["it's", "", "\\"], "])") := by cbv

theorem unquoteList_quoteList (xs : List String) :
    unquoteList (quoteList xs) = some (xs, "") := by
  simpa using unquoteList_quoteList_append xs "" (by simp) (by simp)

/-- Quoting can be undone in one way only.  A quoted value is read back together with whatever text
follows it, hence no value and text are written as others are; a list of quoted values is read back
as the values that it was made of, hence no list is written as another one is. -/
theorem quoting_decodable :
    (∀ value rest : String, unquote (quote value ++ rest) = some (value, rest)) ∧
    (∀ value value' rest rest' : String,
      quote value ++ rest = quote value' ++ rest' ↔ value = value' ∧ rest = rest') ∧
    (∀ xs : List String, unquoteList (quoteList xs) = some (xs, "")) ∧
    ∀ xs ys : List String, quoteList xs = quoteList ys ↔ xs = ys := by
  refine ⟨unquote_quote_append, fun value value' rest rest' => ⟨quote_append_inj, ?_⟩,
    unquoteList_quoteList, fun xs ys => ⟨fun h => ?_, congrArg quoteList⟩⟩
  · rintro ⟨rfl, rfl⟩
    rfl
  · have hread := congrArg unquoteList h
    rw [unquoteList_quoteList, unquoteList_quoteList] at hread
    exact (Prod.mk.inj (Option.some.inj hread)).1

end Statement
end InstanceHierarchy
