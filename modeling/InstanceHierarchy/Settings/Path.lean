import InstanceHierarchy.MachineNumber
import InstanceHierarchy.Text.Number

/-!
# Paths to settings

The key of an entry is a path: names set apart by dots, and places in lists between brackets, as in
`demo.names[0]`.  A name consists of letters, digits, blanks, underscores and hyphens.  A key that
is not made like a path names itself.
-/

namespace InstanceHierarchy

/-- A part of the path that a key writes. -/
inductive PathPart where
  | key (name : String)
  /-- A place in a list, counted from zero; a negative one counts back from the end. -/
  | place (i : Int)

namespace PathPart

/-- Whether a character may stand in a name. -/
def isNameChar (ch : Char) : Bool := ch.isAlphanum || ch = ' ' || ch = '_' || ch = '-'

/-- The name at the front of a text. -/
def readName (cs : List Char) : Option String :=
  if (cs.takeWhile isNameChar).isEmpty then none
  else some (String.ofList (cs.takeWhile isNameChar))

/-- A text without the blanks around it. -/
def trim (cs : List Char) : List Char :=
  let blank (ch : Char) : Bool := ch = ' ' || ch = '\t'
  ((cs.dropWhile blank).reverse.dropWhile blank).reverse

/-- The place that the text between two brackets writes: decimal digits with an optional minus
sign. -/
def readPlace (cs : List Char) : Option Int :=
  match trim cs with
  | '+' :: _ => none
  | digits => Text.readInteger (String.ofList digits)

theorem length_dropWhile_lt (p : α → Bool) (x : α) (xs : List α) :
    (xs.dropWhile p).length < (x :: xs).length :=
  Nat.lt_succ_of_le (List.dropWhile_suffix p).length_le

theorem length_tail_dropWhile_lt (p : α → Bool) (x : α) (xs : List α) :
    (xs.dropWhile p).tail.length < (x :: xs).length :=
  Nat.lt_of_le_of_lt (by simp) (length_dropWhile_lt p x xs)

/-- The parts behind the first name. -/
def readRest (cs : List Char) : Option (List PathPart) :=
  match cs with
  | [] => some []
  | '.' :: rest => do
      let name ← readName rest
      let parts ← readRest (rest.dropWhile isNameChar)
      return .key name :: parts
  | '[' :: rest =>
      if rest.contains ']' then do
        let i ← readPlace (rest.takeWhile (· ≠ ']'))
        let parts ← readRest (rest.dropWhile (· ≠ ']')).tail
        return .place i :: parts
      else none
  | _ => none
  termination_by cs.length
  decreasing_by
    · exact length_dropWhile_lt isNameChar _ rest
    · exact length_tail_dropWhile_lt (· ≠ ']') _ rest

/-- The path that a key writes. -/
def ofKey (key : String) : List PathPart :=
  let found : Option (List PathPart) := do
    let name ← readName key.toList
    let parts ← readRest (key.toList.dropWhile isNameChar)
    return .key name :: parts
  found.getD [.key key]

end PathPart

end InstanceHierarchy
