import InstanceHierarchy.MachineNumber

/-!
# Numbers written as texts

Decimal digits with an optional sign make a whole number.  A point, an exponent, or the name of
infinity or of what is not a number make a float, which is the one nearest to the decimal.
-/

namespace InstanceHierarchy
namespace Text

/-- Digits at the front of a text, and the rest. -/
def spanDigits (cs : List Char) : List Char × List Char :=
  (cs.takeWhile Char.isDigit, cs.dropWhile Char.isDigit)

/-- The number that digits write. -/
def digitsValue (cs : List Char) : Nat :=
  cs.foldl (fun n ch => n * 10 + (ch.toNat - '0'.toNat)) 0

/-- A sign at the front of a text, minus being true, and the rest. -/
def spanSign : List Char → Bool × List Char
  | '+' :: rest => (false, rest)
  | '-' :: rest => (true, rest)
  | cs => (false, cs)

/-- The whole number that a text of decimal digits with an optional plus sign writes. -/
def readNatural (s : String) : Option Nat :=
  let digits :=
    match s.toList with
    | '+' :: rest => rest
    | cs => cs
  if digits.isEmpty || !digits.all Char.isDigit then none else some (digitsValue digits)

/-- The whole number of 64 bits with a sign that a text writes. -/
def readInteger (s : String) : Option Int :=
  let (negative, digits) := spanSign s.toList
  if digits.isEmpty || !digits.all Char.isDigit then none
  else
    let n : Int := if negative then -digitsValue digits else digitsValue digits
    if Limit.int64Min ≤ n ∧ n ≤ Limit.int64Max then some n else none

/-- The float nearest to `digits · 10 ^ exponent`.  Powers far beyond the doubles need not be
computed. -/
def nearestFloat (digits : List Char) (exponent : Int) : Float :=
  let significant := digits.dropWhile (· = '0')
  let n := digitsValue significant
  let lead : Int := significant.length + exponent
  if n = 0 then 0.0
  else if 400 < lead then 1.0 / 0.0
  else if lead < -400 then 0.0
  else if exponent < 0 then Float.ofScientific n true (-exponent).toNat
  else Float.ofScientific n false exponent.toNat

/-- The exponent at the end of a number's text: none is zero. -/
def readExponentPart : List Char → Option Int
  | [] => some 0
  | ch :: rest =>
      if ch = 'e' || ch = 'E' then
        let (negative, digits) := spanSign rest
        if digits.isEmpty || !digits.all Char.isDigit then none
        else some (if negative then -digitsValue digits else digitsValue digits)
      else none

/-- The float that a text writes: digits with an optional point, exponent and sign, or the name of
infinity or of what is not a number. -/
def readFloat (s : String) : Option Double :=
  let (negative, cs) := spanSign s.toList
  let signed (f : Float) : Double := .ofFloat (if negative then -f else f)
  let word := String.ofList (cs.map Char.toLower)
  if word = "inf" || word = "infinity" then some (signed (1.0 / 0.0))
  else if word = "nan" then some (signed (0.0 / 0.0))
  else
    let (whole, rest) := spanDigits cs
    let (places, rest) :=
      match rest with
      | '.' :: rest => spanDigits rest
      | rest => ([], rest)
    if whole.isEmpty && places.isEmpty then none
    else
      (readExponentPart rest).map fun e =>
        signed (nearestFloat (whole ++ places) (e - places.length))

end Text
end InstanceHierarchy
