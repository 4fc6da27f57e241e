import InstanceHierarchy.Json.Basic

/-!
# Reading JSON text

The reader takes one value and nothing but blanks after it.  A text that is not JSON is refused
with the cause and its place: the line from one, and the number of bytes of that line that were
taken.  A cause found while looking ahead counts the byte looked at as taken.  Of two equal field
names in one object the later wins, and fields come out in ascending name order.
-/

namespace InstanceHierarchy
namespace Json

/-- Why a text is not JSON. -/
inductive SyntaxFault where
  | endInList
  | endInObject
  | endInString
  | endInValue
  | colonExpected
  | listEndExpected
  | objectEndExpected
  | wordExpected
  | valueExpected
  | badEscape
  | badNumber
  | numberTooLarge
  | controlCharacter
  | keyNotText
  | loneSurrogate
  | trailingComma
  | trailingCharacters
  | surrogateCutShort
  | nestedTooDeep
  deriving DecidableEq

namespace SyntaxFault

def message : SyntaxFault → String
  | endInList => "EOF while parsing a list"
  | endInObject => "EOF while parsing an object"
  | endInString => "EOF while parsing a string"
  | endInValue => "EOF while parsing a value"
  | colonExpected => "expected `:`"
  | listEndExpected => "expected `,` or `]`"
  | objectEndExpected => "expected `,` or `\x7d`"
  | wordExpected => "expected ident"
  | valueExpected => "expected value"
  | badEscape => "invalid escape"
  | badNumber => "invalid number"
  | numberTooLarge => "number out of range"
  | controlCharacter => "control character (\\u0000-\\u001F) found while parsing a string"
  | keyNotText => "key must be a string"
  | loneSurrogate => "lone leading surrogate in hex escape"
  | trailingComma => "trailing comma"
  | trailingCharacters => "trailing characters"
  | surrogateCutShort => "unexpected end of hex escape"
  | nestedTooDeep => "recursion limit exceeded"

end SyntaxFault

/-- A fault with the line and the column where it was found. -/
structure SyntaxError where
  fault : SyntaxFault
  line : Nat
  column : Nat
  deriving DecidableEq

def SyntaxError.message (e : SyntaxError) : String :=
  e.fault.message ++ " at line " ++ toString e.line ++ " column " ++ toString e.column

/-- The unread text and its place. -/
structure Cursor where
  rest : List Char
  line : Nat
  column : Nat

namespace Cursor

/-- Past the next character. -/
def advance (c : Cursor) : Cursor :=
  match c.rest with
  | [] => c
  | '\n' :: rest => ⟨rest, c.line + 1, 0⟩
  | ch :: rest => ⟨rest, c.line, c.column + ch.utf8Size⟩

/-- The place just behind the next byte. -/
def lookAhead (c : Cursor) : Nat × Nat :=
  match c.rest with
  | [] => (c.line, c.column)
  | '\n' :: _ => (c.line + 1, 0)
  | _ => (c.line, c.column + 1)

/-- The place reached by some number of bytes, or by all of them if there are fewer. -/
def placeAfterBytes : List Char → Nat → Nat → Nat → Nat × Nat
  | [], line, column, _ => (line, column)
  | ch :: rest, line, column, n =>
      if n = 0 then (line, column)
      else if ch = '\n' then placeAfterBytes rest (line + 1) 0 (n - 1)
      else placeAfterBytes rest line (column + min n ch.utf8Size) (n - ch.utf8Size)

def fail (c : Cursor) (fault : SyntaxFault) : Except SyntaxError α :=
  .error ⟨fault, c.line, c.column⟩

def failAhead (c : Cursor) (fault : SyntaxFault) : Except SyntaxError α :=
  .error ⟨fault, c.lookAhead.1, c.lookAhead.2⟩

end Cursor

/-- The blanks that may stand between the parts of a text. -/
def isBlank (ch : Char) : Bool := ch = ' ' || ch = '\n' || ch = '\t' || ch = '\r'

def skipBlanksFrom : List Char → Nat → Nat → Cursor
  | [], line, column => ⟨[], line, column⟩
  | ch :: rest, line, column =>
      if ch = '\n' then skipBlanksFrom rest (line + 1) 0
      else if isBlank ch then skipBlanksFrom rest line (column + 1)
      else ⟨ch :: rest, line, column⟩

def Cursor.skipBlanks (c : Cursor) : Cursor := skipBlanksFrom c.rest c.line c.column

/-- The rest of a word whose first character was taken. -/
def readWord : List Char → Cursor → Except SyntaxError Cursor
  | [], c => .ok c
  | w :: word, c =>
      match c.rest with
      | [] => c.fail .endInValue
      | ch :: _ => if ch = w then readWord word c.advance else c.failAhead .wordExpected

/-- The value of a hexadecimal digit. -/
def hexValue (ch : Char) : Option Nat :=
  if ch.isDigit then some (ch.toNat - '0'.toNat)
  else if 'a' ≤ ch ∧ ch ≤ 'f' then some (ch.toNat - 'a'.toNat + 10)
  else if 'A' ≤ ch ∧ ch ≤ 'F' then some (ch.toNat - 'A'.toNat + 10)
  else none

/-- The sixteen bits that four hexadecimal digits name. -/
def readHex (c : Cursor) : Except SyntaxError (Nat × Cursor) :=
  let bad : Except SyntaxError (Nat × Cursor) :=
    let bytes := c.rest.foldl (fun n ch => n + ch.utf8Size) 0
    let place := Cursor.placeAfterBytes c.rest c.line c.column (if bytes < 4 then bytes else 4)
    .error ⟨if bytes < 4 then .endInString else .badEscape, place.1, place.2⟩
  match c.rest with
  | h₃ :: h₂ :: h₁ :: h₀ :: rest =>
      match hexValue h₃, hexValue h₂, hexValue h₁, hexValue h₀ with
      | some v₃, some v₂, some v₁, some v₀ =>
          .ok (((v₃ * 16 + v₂) * 16 + v₁) * 16 + v₀, ⟨rest, c.line, c.column + 4⟩)
      | _, _, _, _ => bad
  | _ => bad

/-- The character that a `\u` escape names; a character beyond sixteen bits takes two escapes. -/
def readUnicodeEscape (c : Cursor) : Except SyntaxError (Char × Cursor) := do
  let (n, c) ← readHex c
  if 0xDC00 ≤ n ∧ n ≤ 0xDFFF then c.fail .loneSurrogate
  else if n < 0xD800 ∨ 0xDBFF < n then .ok (Char.ofNat n, c)
  else
    match c.rest with
    | [] => c.fail .endInString
    | '\\' :: _ =>
        let c := c.advance
        match c.rest with
        | [] => c.fail .endInString
        | 'u' :: _ => do
            let (low, c) ← readHex c.advance
            if low < 0xDC00 ∨ 0xDFFF < low then c.fail .loneSurrogate
            else .ok (Char.ofNat ((n - 0xD800) * 0x400 + (low - 0xDC00) + 0x10000), c)
        | _ => c.failAhead .surrogateCutShort
    | _ => c.failAhead .surrogateCutShort

/-- The character behind a backslash. -/
def readEscape (c : Cursor) : Except SyntaxError (Char × Cursor) :=
  match c.rest with
  | [] => c.fail .endInString
  | '"' :: _ => .ok ('"', c.advance)
  | '\\' :: _ => .ok ('\\', c.advance)
  | '/' :: _ => .ok ('/', c.advance)
  | 'b' :: _ => .ok ('\x08', c.advance)
  | 'f' :: _ => .ok ('\x0c', c.advance)
  | 'n' :: _ => .ok ('\n', c.advance)
  | 'r' :: _ => .ok ('\r', c.advance)
  | 't' :: _ => .ok ('\t', c.advance)
  | 'u' :: _ => readUnicodeEscape c.advance
  | _ => c.failAhead .badEscape

/-- The characters up to the closing quote; the opening one was taken.  Each round takes a
character at least, so the length of the text bounds the rounds. -/
def readTextFrom : Nat → Cursor → List Char → Except SyntaxError (String × Cursor)
  | 0, c, _ => c.fail .endInString
  | fuel + 1, c, seen =>
      match c.rest with
      | [] => c.fail .endInString
      | '"' :: _ => .ok (String.ofList seen.reverse, c.advance)
      | '\\' :: _ => do
          let (ch, c) ← readEscape c.advance
          readTextFrom fuel c (ch :: seen)
      | ch :: _ =>
          if ch.toNat < 0x20 then c.failAhead .controlCharacter
          else readTextFrom fuel c.advance (ch :: seen)

def readText (c : Cursor) : Except SyntaxError (String × Cursor) :=
  readTextFrom (c.rest.length + 1) c []

/-- Divide by `10 ^ 308` while the exponent asks for a smaller power than the doubles have.  Two
divisions make every significand zero. -/
def scaleDown : Nat → Float → Int → Float
  | 0, _, _ => 0.0
  | rounds + 1, f, e =>
      if -308 ≤ e then f / Float.ofScientific 1 false (-e).toNat
      else if f == 0.0 then f
      else scaleDown rounds (f / 1e308) (e + 308)

/-- The double made from a significand and a power of ten by one multiplication or division; none
if it is not finite. -/
def scaled (significand : Nat) (e : Int) : Option Float :=
  let f := Float.ofNat significand
  if e < 0 then some (scaleDown 3 f e)
  else if 308 < e then (if significand = 0 then some 0.0 else none)
  else
    let g := f * Float.ofScientific 1 false e.toNat
    if g.isInf then none else some g

def signed (negative : Bool) (f : Float) : Json :=
  .float (.ofFloat (if negative then -f else f))

/-- Take digits into a significand until one more would leave 64 bits: the significand, the number
of digits taken, and whether a digit was left. -/
def takeDigits : List Char → Nat → Nat → Nat × Nat × List Char
  | [], s, n => (s, n, [])
  | ch :: rest, s, n =>
      if ch.isDigit then
        let s' := s * 10 + (ch.toNat - '0'.toNat)
        if Limit.nat64Max < s' then (s, n, ch :: rest) else takeDigits rest s' (n + 1)
      else (s, n, ch :: rest)

def startsWithDigit : List Char → Bool
  | ch :: _ => ch.isDigit
  | [] => false

def dropDigits (c : Cursor) : Cursor :=
  let rest := c.rest.dropWhile Char.isDigit
  ⟨rest, c.line, c.column + (c.rest.length - rest.length)⟩

def finishNumber (negative : Bool) (significand : Nat) (e : Int) (c : Cursor) :
    Except SyntaxError (Json × Cursor) :=
  match scaled significand e with
  | some f => .ok (signed negative f, c)
  | none => c.fail .numberTooLarge

/-- The exponent behind `e`, which is taken.  An exponent beyond 31 bits makes the number zero, or
too large. -/
def readExponent (negative : Bool) (significand : Nat) (e : Int) (c : Cursor) :
    Except SyntaxError (Json × Cursor) :=
  let (down, c) : Bool × Cursor :=
    match c.rest with
    | '+' :: _ => (false, c.advance)
    | '-' :: _ => (true, c.advance)
    | _ => (false, c)
  match c.rest with
  | [] => c.fail .endInValue
  | ch :: _ =>
      if !ch.isDigit then c.failAhead .badNumber
      else
        -- the digits are taken one by one until the exponent leaves 31 bits
        let digits := c.rest.takeWhile Char.isDigit
        let values := digits.map fun d => d.toNat - '0'.toNat
        let grow (acc : Option Nat × Nat) (d : Nat) : Option Nat × Nat :=
          match acc with
          | (some n, taken) =>
              if Limit.nat31Max < n * 10 + d then (none, taken + 1)
              else (some (n * 10 + d), taken + 1)
          | (none, taken) => (none, taken)
        match values.foldl grow (some 0, 0) with
        | (some n, _) =>
            finishNumber negative significand (if down then e - n else e + n) (dropDigits c)
        | (none, taken) =>
            if significand ≠ 0 && !down then
              .error ⟨.numberTooLarge, c.line, c.column + taken⟩
            else .ok (signed negative 0.0, dropDigits c)

/-- The places behind the point, which is taken.  Digits that would make the significand leave 64
bits are dropped. -/
def readFraction (negative : Bool) (significand : Nat) (e : Int) (c : Cursor) :
    Except SyntaxError (Json × Cursor) :=
  let (s, n, rest) := takeDigits c.rest significand 0
  let c : Cursor := ⟨rest, c.line, c.column + n⟩
  if n = 0 && !startsWithDigit rest then
    c.failAhead (if rest.isEmpty then .endInValue else .badNumber)
  else
    let c := dropDigits c
    match c.rest with
    | ch :: _ =>
        if ch = 'e' ∨ ch = 'E' then readExponent negative s (e - n) c.advance
        else finishNumber negative s (e - n) c
    | [] => finishNumber negative s (e - n) c

/-- A number; a minus sign was taken.  Without point and exponent it is an integer as long as it
fits 64 bits, and minus zero is a float. -/
def readNumber (negative : Bool) (c : Cursor) : Except SyntaxError (Json × Cursor) :=
  match c.rest with
  | [] => c.fail .endInValue
  | ch :: more =>
      if !ch.isDigit then c.failAhead .badNumber
      else if ch = '0' && startsWithDigit more then c.advance.failAhead .badNumber
      else
        let (s, n, rest) := takeDigits c.rest 0 0
        let c : Cursor := ⟨rest, c.line, c.column + n⟩
        let dropped := rest.takeWhile Char.isDigit
        let c := dropDigits c
        match c.rest with
        | '.' :: _ => readFraction negative s dropped.length c.advance
        | 'e' :: _ => readExponent negative s dropped.length c.advance
        | 'E' :: _ => readExponent negative s dropped.length c.advance
        | _ =>
            -- more digits than 64 bits hold make a float without a point
            if dropped ≠ [] then finishNumber negative s dropped.length c
            else if !negative then .ok (.int s, c)
            else if s = 0 ∨ Limit.int64Max + 1 < s then .ok (signed true (Float.ofNat s), c)
            else .ok (.int (-s), c)

mutual

/-- One value.  `depth` containers may still open; `fuel` bounds the calls. -/
def readValue : (fuel depth : Nat) → Cursor → Except SyntaxError (Json × Cursor)
  | 0, _, c => c.failAhead .nestedTooDeep
  | fuel + 1, depth, c =>
      let c := c.skipBlanks
      match c.rest with
      | [] => c.failAhead .endInValue
      | 'n' :: _ => do
          let c ← readWord ['u', 'l', 'l'] c.advance
          .ok (.null, c)
      | 't' :: _ => do
          let c ← readWord ['r', 'u', 'e'] c.advance
          .ok (.bool true, c)
      | 'f' :: _ => do
          let c ← readWord ['a', 'l', 's', 'e'] c.advance
          .ok (.bool false, c)
      | '-' :: _ => readNumber true c.advance
      | '"' :: _ => do
          let (s, c) ← readText c.advance
          .ok (.str s, c)
      | '[' :: _ =>
          if depth ≤ 1 then c.failAhead .nestedTooDeep
          else readItems fuel (depth - 1) true c.advance []
      | '\x7b' :: _ =>
          if depth ≤ 1 then c.failAhead .nestedTooDeep
          else readFields fuel (depth - 1) true c.advance []
      | ch :: _ => if ch.isDigit then readNumber false c else c.failAhead .valueExpected

/-- The items of a list whose bracket was taken. -/
def readItems : (fuel depth : Nat) → (first : Bool) → Cursor → List Json →
    Except SyntaxError (Json × Cursor)
  | 0, _, _, c, _ => c.failAhead .nestedTooDeep
  | fuel + 1, depth, first, c, seen =>
      let c := c.skipBlanks
      match c.rest with
      | [] => c.failAhead .endInList
      | ']' :: _ => .ok (.arr seen.reverse, c.advance)
      | ch :: _ =>
          if first then do
            let (v, c) ← readValue fuel depth c
            readItems fuel depth false c (v :: seen)
          else if ch = ',' then
            let c := c.advance.skipBlanks
            match c.rest with
            | [] => c.failAhead .endInValue
            | ']' :: _ => c.failAhead .trailingComma
            | _ => do
                let (v, c) ← readValue fuel depth c
                readItems fuel depth false c (v :: seen)
          else c.failAhead .listEndExpected

/-- The fields of an object whose brace was taken. -/
def readFields : (fuel depth : Nat) → (first : Bool) → Cursor → Entries Json →
    Except SyntaxError (Json × Cursor)
  | 0, _, _, c, _ => c.failAhead .nestedTooDeep
  | fuel + 1, depth, first, c, seen =>
      let c := c.skipBlanks
      match c.rest with
      | [] => c.failAhead .endInObject
      | '\x7d' :: _ => .ok (.obj seen, c.advance)
      | ch :: _ =>
          let at_ : Except SyntaxError Cursor :=
            if first then
              if ch = '"' then .ok c else c.failAhead .keyNotText
            else if ch = ',' then
              let c := c.advance.skipBlanks
              match c.rest with
              | '"' :: _ => .ok c
              | '\x7d' :: _ => c.failAhead .trailingComma
              | [] => c.failAhead .endInValue
              | _ => c.failAhead .keyNotText
            else c.failAhead .objectEndExpected
          do
            let c ← at_
            let (k, c) ← readText c.advance
            let c := c.skipBlanks
            match c.rest with
            | [] => c.failAhead .endInObject
            | ':' :: _ => do
                let (v, c) ← readValue fuel depth c.advance
                readFields fuel depth false c (Entries.insert k v seen)
            | _ => c.failAhead .colonExpected

end

/-- At most 127 containers may be open at once. -/
def depthLimit : Nat := 128

/-- The value a text writes. -/
def parse (text : String) : Except SyntaxError Json := do
  let chars := text.toList
  let (v, c) ← readValue (2 * chars.length + 2) depthLimit ⟨chars, 1, 0⟩
  let c := c.skipBlanks
  if c.rest.isEmpty then .ok v else c.failAhead .trailingCharacters

end Json
end InstanceHierarchy
