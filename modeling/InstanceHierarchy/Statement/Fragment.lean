import InstanceHierarchy.Operation

/-!
# Statement texts in fragments

A statement text is made of fixed words, labels that stand between a language's marks as they are,
and values that stand between single quotes with quotes and backslashes escaped.
-/

namespace InstanceHierarchy
namespace Statement

/-- The characters of a value between its quotes. -/
def escape : List Char → List Char
  | [] => []
  | c :: rest => if c = '\\' ∨ c = '\'' then '\\' :: c :: escape rest else c :: escape rest

/-- A value between single quotes. -/
def quote (value : String) : String := "'" ++ String.ofList (escape value.toList) ++ "'"

/-- Values between single quotes, with commas between them. -/
def quoteList (values : List String) : String := ",".intercalate (values.map quote)

inductive Fragment where
  /-- Fixed text. -/
  | words (s : String)
  /-- A label, written as it is between the marks of the language. -/
  | label (s : String)
  /-- A value. -/
  | value (s : String)
  /-- A list of values. -/
  | values (xs : List String)

/-- The text of a fragment in a language that puts labels between two `mark`s. -/
def Fragment.text (mark : String) : Fragment → String
  | words s => s
  | label s => mark ++ s ++ mark
  | value s => quote s
  | values xs => quoteList xs

/-- The text of a sequence of fragments. -/
def joinFragments (mark : String) (fragments : List Fragment) : String :=
  String.join (fragments.map (Fragment.text mark))

end Statement
end InstanceHierarchy
