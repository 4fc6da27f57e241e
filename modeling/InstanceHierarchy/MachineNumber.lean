/-!
# Numbers of machines

Whole numbers of the library are unbounded; the limits are the bounds of the formats they are read
from and written to.  A double is kept as its 64 bits and read as `mantissa · 2 ^ exponent`, so that
printing and rounding are exact arithmetic on natural numbers.  The text of a double is the shortest
decimal that reads back as the same double, and of the shortest ones the nearest; where two are
equally near, the format decides.
-/

namespace InstanceHierarchy

/-! ## Limits of integers -/

namespace Limit

/-- The greatest number of 31 bits. -/
def nat31Max : Nat := 2147483647

/-- The greatest number of 32 bits. -/
def nat32Max : Nat := 4294967295

/-- The greatest number of 64 bits. -/
def nat64Max : Nat := 18446744073709551615

/-- The least number of 64 bits with a sign. -/
def int64Min : Int := -9223372036854775808

/-- The greatest number of 64 bits with a sign. -/
def int64Max : Int := 9223372036854775807

/-- A limit of which zero counts as one is positive. -/
theorem max_one_pos (n : Nat) : 0 < max n 1 := Nat.le_max_right n 1

end Limit

/-! ## Doubles -/

/-- A double, by its bits: sign, eleven bits of exponent, fifty-two bits of fraction. -/
structure Double where
  bits : UInt64
  deriving DecidableEq, Inhabited

namespace Double

/-- The double of a machine float. -/
def ofFloat (x : Float) : Double := ⟨x.toBits⟩

/-- The double nearest to a natural number. -/
def ofNat (n : Nat) : Double := ofFloat (Float.ofNat n)

/-- The number of fractions: two to the power fifty-two. -/
def fractions : Nat := 4503599627370496

/-- The number of exponents. -/
def exponents : Nat := 2048

def isNegative (x : Double) : Bool := x.bits.toNat / (fractions * exponents) = 1

/-- The eleven exponent bits. -/
def exponentField (x : Double) : Nat := x.bits.toNat / fractions % exponents

/-- The fifty-two fraction bits. -/
def fractionField (x : Double) : Nat := x.bits.toNat % fractions

def isNaN (x : Double) : Bool := x.exponentField = 2047 && x.fractionField ≠ 0

def isInfinite (x : Double) : Bool := x.exponentField = 2047 && x.fractionField = 0

def isFinite (x : Double) : Bool := x.exponentField ≠ 2047

/-- The integer that a finite double multiplies by a power of two, without its sign. -/
def mantissa (x : Double) : Nat :=
  if x.exponentField = 0 then x.fractionField else fractions + x.fractionField

/-- The power of two that multiplies the mantissa of a finite double. -/
def exponent (x : Double) : Int := (max x.exponentField 1 : Nat) - 1075

/-- Numerator and denominator of `n · 2 ^ e`. -/
def ratio (n : Nat) (e : Int) : Nat × Nat := (n * Nat.pow 2 e.toNat, Nat.pow 2 (-e).toNat)

/-- A decimal `digits · 10 ^ exponent`. -/
structure Decimal where
  digits : Nat
  exponent : Int
  deriving DecidableEq

def digitCount (n : Nat) : Int := (Nat.toDigits 10 n).length

/-- The exponent of the greatest power of ten that is at most the positive ratio `num / den`. -/
def leadingExponent (num den : Nat) : Int :=
  let e := digitCount num - digitCount den
  if den * Nat.pow 10 e.toNat ≤ num * Nat.pow 10 (-e).toNat then e else e - 1

/-- The reals that round to a positive finite double, in units of a quarter of its last place:
the two ends, and whether they belong to it. -/
def roundingInterval (x : Double) : Nat × Nat × Bool :=
  let m := x.mantissa
  -- below a power of two the neighbour is only half as far away
  let below := if x.fractionField = 0 ∧ 1 < x.exponentField then 1 else 2
  (4 * m - below, 4 * m + 2, m % 2 = 0)

/-- Which of two decimals at equal distance is taken. -/
inductive Tie where
  | greater
  /-- The one whose last digit is even. -/
  | even

/-- The number that a tie between a number and the next one goes to. -/
def Tie.pick : Tie → Nat → Nat
  | greater, c => c + 1
  | even, c => c + c % 2

/-- On the grid of multiples of `10 ^ step`, the point nearest to a positive finite double that
rounds to it, if one does. -/
def nearestOnGrid (tie : Tie) (x : Double) (step : Int) : Option Nat :=
  let (lo, hi, closed) := x.roundingInterval
  let (unit, den) := ratio 1 (x.exponent - 2)
  -- a real `u` quarters is the grid coordinate `u · unit · down / (den · up)`
  let up := den * Nat.pow 10 step.toNat
  let down := unit * Nat.pow 10 (-step).toNat
  let value := 4 * x.mantissa * down
  let inside (c : Nat) : Bool :=
    if closed then lo * down ≤ c * up && c * up ≤ hi * down
    else lo * down < c * up && c * up < hi * down
  let c := value / up
  let above := (c + 1) * up - value
  let below := value - c * up
  if inside c && inside (c + 1) then
    some (if above < below then c + 1 else if below < above then c else tie.pick c)
  else if inside c then some c
  else if inside (c + 1) then some (c + 1)
  else none

/-- The shortest decimal that reads back as a positive finite double.  The search starts one place
above the leading digit, where the next power of ten lies; seventeen digits always suffice. -/
def shortest (tie : Tie) (x : Double) : Decimal :=
  let (num, den) := ratio x.mantissa x.exponent
  let lead := leadingExponent num den
  let found := (List.range 18).findSome? fun (n : Nat) =>
    (x.nearestOnGrid tie (lead + 1 - n)).map fun c => Decimal.mk c (lead + 1 - n)
  found.getD ⟨num / den, 0⟩

/-- A decimal written out without an exponent. -/
def Decimal.positional (d : Decimal) : String :=
  let digits := Nat.toDigits 10 d.digits
  if 0 ≤ d.exponent then String.ofList (digits ++ List.replicate d.exponent.toNat '0')
  else
    let places := (-d.exponent).toNat
    let padded := List.replicate (places + 1 - digits.length) '0' ++ digits
    let whole := padded.length - places
    String.ofList (padded.take whole ++ '.' :: padded.drop whole)

/-- The text of a double: never an exponent, and no point in a whole number.  Ties go to the greater
decimal. -/
def toText (x : Double) : String :=
  if x.isNaN then "NaN"
  else
    let sign := if x.isNegative then "-" else ""
    let body :=
      if x.isInfinite then "inf"
      else if x.mantissa = 0 then "0"
      else (x.shortest .greater).positional
    sign ++ body

/-- The text of a double with a point in every finite number. -/
def toPointText (x : Double) : String :=
  let t := x.toText
  if x.isFinite && !t.toList.contains '.' then t ++ ".0" else t

/-- A decimal with a point or with an exponent, whichever is short: positional while the leading
digit stands at most sixteen places before the point and at most five behind it.  An exponent has
its sign. -/
def Decimal.scientific (d : Decimal) : String :=
  let digits := Nat.toDigits 10 d.digits
  let point : Int := digits.length + d.exponent
  if 0 ≤ d.exponent && point ≤ 16 then d.positional ++ ".0"
  else if -5 < point && point ≤ 16 then d.positional
  else
    let tail := if digits.length ≤ 1 then [] else '.' :: digits.drop 1
    String.ofList (digits.take 1 ++ tail) ++ "e" ++ (if 0 < point then "+" else "") ++
      toString (point - 1)

/-- The text of a finite double in JSON: a point or an exponent shows that it is no whole number.
Ties go to the even decimal. -/
def toJsonText (x : Double) : String :=
  (if x.isNegative then "-" else "") ++
    if x.mantissa = 0 then "0.0" else (x.shortest .even).scientific

/-- The natural number nearest to a double, a half going up; nothing below zero, at most `limit`,
and zero for what is not a number. -/
def roundToNat (x : Double) (limit : Nat) : Nat :=
  if x.isNaN || x.isNegative then 0
  else if x.isInfinite then limit
  else
    let (num, den) := ratio x.mantissa x.exponent
    min ((2 * num + den) / (2 * den)) limit

end Double
end InstanceHierarchy
