import InstanceHierarchy.Settings.Environment
import InstanceHierarchy.Text.Basic

/-!
# Variable files

A variable file sets environment variables, one to a line: a name, an equals sign and a value.
Values may be quoted, quotes may span lines, and a dollar sign names a variable whose value is put
in its place.  A variable that is set already stays as it is.  The first line that is not of this
form ends the reading; the variables before it count.
-/

namespace InstanceHierarchy
namespace VariableFile

open Text

/-! ## Lines -/

/-- What the end of a line lies in. -/
inductive Place where
  | plain
  /-- Behind a blank, where a comment may begin. -/
  | blank
  | escape
  | strong
  | strongEscape
  | weak
  | weakEscape
  | comment
  deriving DecidableEq

namespace Place

/-- Where the next character lies.  A comment goes on to the end of the line. -/
def next (p : Place) (ch : Char) : Place :=
  match p with
  | plain =>
      if isSpace ch && ch ≠ '\n' && ch ≠ '\r' then blank else opened ch
  | blank => if ch = '#' then comment else opened ch
  | escape => plain
  | strong => if ch = '\\' then strongEscape else if ch = '\'' then plain else strong
  | strongEscape => strong
  | weak => if ch = '\\' then weakEscape else if ch = '"' then plain else weak
  | weakEscape => weak
  | comment => comment
where
  opened (ch : Char) : Place :=
    if ch = '\\' then escape
    else if ch = '"' then weak
    else if ch = '\'' then strong
    else plain

/-- The place behind a piece of text, and the number of characters before a comment. -/
def scan : Place → List Char → Nat → Place × Nat
  | p, [], n => (p, n)
  | p, ch :: rest, n =>
      match p.next ch with
      | comment => (comment, n)
      | q => scan q rest (n + 1)

end Place

/-- The lines of a text, each with its line break. -/
def physicalLines (cs : List Char) : List (List Char) :=
  match cs with
  | [] => []
  | ch :: rest =>
      if ch = '\n' then [ch] :: physicalLines rest
      else
        match physicalLines rest with
        | [] => [[ch]]
        | line :: lines => (ch :: line) :: lines

/-- A line without its line break. -/
def dropBreak (cs : List Char) : List Char :=
  match cs.reverse with
  | '\n' :: '\r' :: rest => rest.reverse
  | '\n' :: rest => rest.reverse
  | _ => cs

/-- Join lines while quotes are open: each joined line, and none in place of what is not complete
at the end.  A line that begins with a number sign is empty, and so is one that
begins so after it was joined. -/
def joinLines : List (List Char) → Place → List Char → List (Option (List Char))
  | [], p, _ => if p = .plain then [] else [none]
  | line :: rest, p, before =>
      let joined := before ++ line
      if (joined.dropWhile isSpace).head? = some '#' then some [] :: joinLines rest .plain []
      else
        -- only the new line is scanned; the place carries what was open before it
        match p.scan line 0 with
        | (.plain, _) => some (dropBreak joined) :: joinLines rest .plain []
        | (.comment, n) => some (before ++ line.take n) :: joinLines rest .plain []
        | (q, _) => joinLines rest q joined

/-! ## Values -/

/-- How far the name of a variable behind a dollar sign has come. -/
inductive Naming where
  | none
  /-- A bare name, which ends before the first character that is no letter and no digit. -/
  | bare
  /-- A name in braces. -/
  | braced
  deriving DecidableEq

/-- The state of reading a value. -/
structure ValueState where
  strong : Bool
  weak : Bool
  escaped : Bool
  /-- A blank has ended the value; only blanks and a comment may follow. -/
  ended : Bool
  naming : Naming
  /-- The letters of the name, last first. -/
  name : List Char
  /-- The letters of the value, last first. -/
  output : List Char

namespace ValueState

def start : ValueState := ⟨false, false, false, false, .none, [], []⟩

def push (s : ValueState) (ch : Char) : ValueState := { s with output := ch :: s.output }

/-- Put the value of the named variable in the name's place; a variable that is not set is
empty. -/
def substitute (vars : Variables) (s : ValueState) : ValueState :=
  let value := (vars.get? (String.ofList s.name.reverse)).getD ""
  { s with output := value.toList.reverse ++ s.output, name := [], naming := .none }

/-- Read one character of a name. -/
def readName (vars : Variables) (s : ValueState) (ch : Char) : ValueState :=
  if isWord ch then { s with name := ch :: s.name }
  else if s.naming = .braced then
    if ch = '\x7d' then s.substitute vars else { s with name := ch :: s.name }
  else if ch = '\x7b' && s.name.isEmpty then { s with naming := .braced }
  else
    let s := s.substitute vars
    if ch = '$' then { s with naming := .bare } else s.push ch

/-- Read one character of a value; none if it cannot stand there. -/
def read (vars : Variables) (s : ValueState) (ch : Char) : Option ValueState :=
  if s.ended then if ch = ' ' || ch = '\t' then some s else none
  -- an escape counts before the quotes, but none begins inside single ones
  else if s.escaped then
    let s := { s with escaped := false }
    if ch = '\\' || ch = '\'' || ch = '"' || ch = '$' || ch = ' ' then some (s.push ch)
    else if ch = 'n' then some (s.push '\n')
    else none
  -- single quotes take everything as it is
  else if s.strong then
    some (if ch = '\'' then { s with strong := false } else s.push ch)
  else if s.naming ≠ .none then some (s.readName vars ch)
  else if ch = '$' then some { s with naming := .bare }
  else if ch = '\\' then some { s with escaped := true }
  else if s.weak then some (if ch = '"' then { s with weak := false } else s.push ch)
  else if ch = '\'' then some { s with strong := true }
  else if ch = '"' then some { s with weak := true }
  else if ch = ' ' || ch = '\t' then some { s with ended := true }
  else some (s.push ch)

/-- The value, unless a quote or a brace is still open. -/
def close (vars : Variables) (s : ValueState) : Option String :=
  if s.naming = .braced || s.strong || s.weak then none
  else some (String.ofList (s.substitute vars).output.reverse)

end ValueState

/-- The value that a text writes.  Behind a blank that ends the value a comment may follow. -/
def readValue (vars : Variables) : List Char → ValueState → Option String
  | [], s => s.close vars
  | ch :: rest, s =>
      if s.ended && ch = '#' then s.close vars
      else (s.read vars ch).bind (readValue vars rest)

/-! ## Assignments -/

def isNameStart (ch : Char) : Bool := ch.isAlpha || ch = '_'

def isNameChar (ch : Char) : Bool := ch.isAlphanum || ch = '_' || ch = '.'

/-- The name at the front of a text, and the rest behind blanks. -/
def readName : List Char → Option (String × List Char)
  | [] => none
  | ch :: rest =>
      if isNameStart ch then
        some (String.ofList (ch :: rest.takeWhile isNameChar),
          (rest.dropWhile isNameChar).dropWhile isSpace)
      else none

/-- What stands behind an equals sign. -/
def afterEquals : List Char → Option (List Char)
  | '=' :: rest => some rest
  | _ => none

/-- What a line says: a variable and its value, or nothing.  The word `export` may stand before the
name. -/
inductive Line where
  | nothing
  | assignment (name value : String)
  | malformed

/-- The line that a text writes. -/
def readLine (vars : Variables) (cs : List Char) : Line :=
  let trimmed := ((cs.reverse.dropWhile isSpace).reverse).dropWhile isSpace
  if startsNothing trimmed then .nothing
  else
    let found := do
      let (name, rest) ← readName trimmed
      match afterEquals rest with
      | some value => assign name value
      | none =>
          if name = "export" then
            let (name, rest) ← readName rest
            assign name (← afterEquals rest)
          else none
    match found with
    | some (name, value) => .assignment name value
    | none => .malformed
where
  startsNothing (cs : List Char) : Bool := cs.isEmpty || cs.head? = some '#'
  assign (name : String) (cs : List Char) : Option (String × String) :=
    let value := cs.dropWhile isSpace
    if startsNothing value then some (name, "")
    else (readValue vars value .start).map fun v => (name, v)

/-- Set variables line by line, up to the first that is malformed. -/
def setLines : List (Option (List Char)) → Variables → Variables
  | [], vars => vars
  | none :: _, vars => vars
  | some line :: rest, vars =>
      match readLine vars line with
      | .malformed => vars
      | .nothing => setLines rest vars
      | .assignment name value =>
          setLines rest (vars.setNew name value)

/-- Set the variables of a file's text that are not set yet. -/
def load (text : String) (vars : Variables) : Variables :=
  let cs :=
    match text.toList with
    | '\uFEFF' :: rest => rest
    | cs => cs
  setLines (joinLines (physicalLines cs) .plain []) vars

end VariableFile
end InstanceHierarchy
