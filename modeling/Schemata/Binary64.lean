/-!
# Binary floating-point numbers

Numbers with a sign, a 53-bit significand and an exponent of two, as dyadic fractions of natural numbers.
Everything is exact natural-number arithmetic: `ofRatio` rounds a quotient to the nearest number, a half
to the even neighbour; `shortest?` finds the fewest decimal digits that read back as the same number; and
`render` writes a number in positional notation, and `compact` with an exponent where that is shorter.
-/

namespace Schemata

/-- A binary floating-point number. The finite number with significand `m` and exponent `e` is `± m · 2ᵉ`. -/
inductive Binary64 where
  /-- Not a number. -/
  | nan
  /-- Positive or negative infinity. -/
  | infinite (negative : Bool)
  /-- A finite number. -/
  | finite (negative : Bool) (significand : Nat) (exponent : Int)
deriving DecidableEq, Repr, Inhabited

namespace Binary64

/-- The bits of a significand. -/
def precision : Nat := 53

/-- The least exponent. -/
def minExponent : Int := -1074

/-- The greatest exponent. -/
def maxExponent : Int := 971

/-- A power of two. -/
def pow2 (k : Nat) : Nat := Nat.pow 2 k

/-- A power of ten. -/
def pow10 (k : Nat) : Nat := Nat.pow 10 k

/-- The power of two with an exponent of either sign, as a quotient. -/
def twoPow (e : Int) : Nat × Nat :=
  if 0 ≤ e then (pow2 e.toNat, 1) else (1, pow2 (-e).toNat)

/-- The natural number nearest to a quotient; a half goes to the even neighbour. -/
def roundQuotient (num den : Nat) : Nat :=
  let q := num / den
  let r := num % den
  if 2 * r < den then q
  else if den < 2 * r then q + 1
  else if q % 2 = 0 then q
  else q + 1

/-- The exponent at which the quotient of two positive numbers has a significand of full precision, or the
least exponent if that is greater. -/
def scale (num den : Nat) : Int :=
  let guess : Int := (num.log2 : Int) - den.log2 - (precision - 1 : Nat)
  let (up, down) := twoPow guess
  let e := if num * down < pow2 (precision - 1) * (den * up) then guess - 1 else guess
  if e < minExponent then minExponent else e

/-- The number nearest to a quotient. -/
def ofRatio (negative : Bool) (num den : Nat) : Binary64 :=
  if num = 0 then .finite negative 0 minExponent
  else
    let e := scale num den
    let (up, down) := twoPow e
    let m := roundQuotient (num * down) (den * up)
    let (m, e) := if m = pow2 precision then (pow2 (precision - 1), e + 1) else (m, e)
    if maxExponent < e then .infinite negative else .finite negative m e

/-- The number nearest to an integer. -/
def ofInt (n : Int) : Binary64 :=
  ofRatio (n < 0) n.natAbs 1

/-! ### Reading -/

/-- The digits at the start of a text as one number, with their count and the rest of the text. -/
def readDigits : List Char → Nat → Nat → Nat × Nat × List Char
  | [], value, count => (value, count, [])
  | c :: cs, value, count =>
    if c.isDigit then readDigits cs (value * 10 + (c.toNat - '0'.toNat)) (count + 1)
    else (value, count, c :: cs)

/-- Read an exponent up to the end of the text; no text is the exponent zero. -/
def readExponent? : List Char → Option Int
  | [] => some 0
  | e :: cs =>
    if e = 'e' || e = 'E' then
      let (negative, digits) :=
        match cs with
        | '-' :: rest => (true, rest)
        | '+' :: rest => (false, rest)
        | _ => (false, cs)
      match readDigits digits 0 0 with
      | (value, _ + 1, []) => some (if negative then -value else value)
      | _ => none
    else none

/-- The number nearest to `digits · 10ᵉ`, where `digits` has `count` digits. An exponent beyond the range of
all numbers is decided without the power. -/
def ofDecimal (negative : Bool) (digits count : Nat) (e : Int) : Binary64 :=
  if digits = 0 || count + e < -330 then .finite negative 0 minExponent
  else if 310 < e then .infinite negative
  else if 0 ≤ e then ofRatio negative (digits * pow10 e.toNat) 1
  else ofRatio negative digits (pow10 (-e).toNat)

/-- Read a decimal without its sign: digits, a fraction and an exponent. -/
def readDecimal? (negative : Bool) (cs : List Char) : Option Binary64 :=
  let (whole, wholeCount, rest) := readDigits cs 0 0
  let (value, fractionCount, rest) :=
    match rest with
    | '.' :: tail => readDigits tail whole 0
    | _ => (whole, 0, rest)
  if wholeCount + fractionCount = 0 then none
  else (readExponent? rest).map fun e => ofDecimal negative value (wholeCount + fractionCount) (e - fractionCount)

/-- Read a number without its sign: a decimal or one of the words for infinity and for no number. -/
def readUnsigned? (negative : Bool) (cs : List Char) : Option Binary64 :=
  let word := String.ofList (cs.map Char.toLower)
  if word = "inf" || word = "infinity" then some (.infinite negative)
  else if word = "nan" then some .nan
  else readDecimal? negative cs

/-- Read a number. -/
def ofText? (s : String) : Option Binary64 :=
  match s.toList with
  | '-' :: rest => readUnsigned? true rest
  | '+' :: rest => readUnsigned? false rest
  | cs => readUnsigned? false cs

/-! ### Writing -/

/-- The magnitude of a finite number if it is a natural number. -/
def wholePart? (m : Nat) (e : Int) : Option Nat :=
  let (up, down) := twoPow e
  if m * up % down = 0 then some (m * up / down) else none

/-- A decimal: `digits` with a point before the last `places` of them. -/
structure Decimal where
  /-- The digits as one number. -/
  digits : Nat
  /-- The digits after the point. -/
  places : Nat
deriving DecidableEq, Repr

/-- Four times the significand and the ends of the interval of numbers that round to it. Below a power of
two the gap is half as wide. -/
def interval (m : Nat) (e : Int) : Nat × Nat × Nat :=
  let low := if m = pow2 (precision - 1) && minExponent < e then 4 * m - 1 else 4 * m - 2
  (low, 4 * m, 4 * m + 2)

/-- The multiple of `1 / grid` nearest to `value / den` among those strictly between the ends, or at an end
if `closed` holds. Of two equally near ones the greater is taken if `upward` holds for the lesser. -/
def nearestOnGrid (upward : Nat → Bool) (closed : Bool) (low value high den grid : Nat) : Option Nat :=
  let below := value * grid / den
  let above := below + 1
  let inside (k : Nat) : Bool :=
    if closed then low * grid ≤ k * den && k * den ≤ high * grid
    else low * grid < k * den && k * den < high * grid
  let gapBelow := value * grid - below * den
  let gapAbove := above * den - value * grid
  match inside below, inside above with
  | true, true =>
    some (if gapBelow < gapAbove || (gapBelow == gapAbove && !upward below) then below else above)
  | true, false => some below
  | false, true => some above
  | false, false => none

/-- Try the grids of `places, places + 1, …` digits after the point. -/
def shortestFrom (closed : Bool) (low value high den : Nat) : Nat → Nat → Option Decimal
  | 0, _ => none
  | fuel + 1, places =>
    match nearestOnGrid (fun _ => true) closed low value high den (pow10 places) with
    | some digits => some ⟨digits, places⟩
    | none => shortestFrom closed low value high den fuel (places + 1)

/-- The decimal with the fewest places that reads back as the fraction `m · 2ᵉ`. Every such fraction is a
decimal with `-e` places, so the search ends. -/
def shortest? (m : Nat) (e : Int) : Option Decimal :=
  let (up, down) := twoPow e
  let (low, value, high) := interval m e
  shortestFrom (m % 2 = 0) (low * up) (value * up) (high * up) (4 * down) ((-e).toNat + 1) 1

/-- A decimal in positional notation. -/
def Decimal.render (d : Decimal) : String :=
  let digits := Nat.toDigits 10 d.digits
  let padded := List.replicate (d.places + 1 - digits.length) '0' ++ digits
  let whole := padded.take (padded.length - d.places)
  let fraction := padded.drop (padded.length - d.places)
  String.ofList (whole ++ '.' :: fraction)

/-- The number in positional notation. A whole number is written out in full with one zero after the point,
any other number with the fewest digits that read back. -/
def render : Binary64 → String
  | .nan => "NaN"
  | .infinite negative => if negative then "-inf" else "inf"
  | .finite negative m e =>
    let sign := if negative then "-" else ""
    match wholePart? m e with
    | some n => sign ++ n.repr ++ ".0"
    | none => sign ++ ((shortest? m e).map Decimal.render).getD ""

/-- Try the powers of ten `10ᵏ` for `k = exponent, exponent - 1, …`: the digits of the multiple that reads back, with
its power. Of two equally near multiples the even one is taken. -/
def fewestDigits (closed : Bool) (low value high den : Nat) : Nat → Int → Option (Nat × Int)
  | 0, _ => none
  | fuel + 1, exponent =>
    let found :=
      if 0 ≤ exponent then
        nearestOnGrid (· % 2 = 1) closed low value high (den * pow10 exponent.toNat) 1
      else
        nearestOnGrid (· % 2 = 1) closed low value high den (pow10 (-exponent).toNat)
    match found with
    | some digits => some (digits, exponent)
    | none => fewestDigits closed low value high den fuel (exponent - 1)

/-- The fewest digits that read back as the positive number `m · 2ᵉ`, with the power of ten that they stand for. The
search starts above the greatest number and ends where every number is a multiple of the power. -/
def significant (m : Nat) (e : Int) : Nat × Int :=
  let (up, down) := twoPow e
  let (low, value, high) := interval m e
  (fewestDigits (m % 2 = 0) (low * up) (value * up) (high * up) (4 * down) (310 + 1075) 309).getD (0, 0)

/-- Digits times a power of ten: in positional notation if the point falls within sixteen digits or is followed by at
most four zeros, and with an exponent otherwise. -/
def writeDigits (digits : Nat) (exponent : Int) : String :=
  let ds := Nat.toDigits 10 digits
  let point := ds.length + exponent
  let text (cs : List Char) : String := String.ofList cs
  if 0 ≤ exponent && point ≤ 16 then
    text (ds ++ List.replicate exponent.toNat '0') ++ ".0"
  else if 0 < point && point ≤ 16 then
    text (ds.take point.toNat) ++ "." ++ text (ds.drop point.toNat)
  else if -5 < point && point ≤ 0 then
    "0." ++ text (List.replicate (-point).toNat '0') ++ text ds
  else if ds.length = 1 then
    text ds ++ "e" ++ toString (point - 1)
  else
    text (ds.take 1) ++ "." ++ text (ds.drop 1) ++ "e" ++ toString (point - 1)

/-- The number with the fewest digits that read back, with an exponent if it is very large or very small. -/
def compact : Binary64 → String
  | .nan => ".nan"
  | .infinite negative => if negative then "-.inf" else ".inf"
  | .finite negative m e =>
    let (digits, exponent) := if m = 0 then (0, 0) else significant m e
    (if negative then "-" else "") ++ writeDigits digits exponent

/-! ### Equality as numbers -/

/-- Whether a number is zero of either sign. -/
def isZero : Binary64 → Bool
  | .finite _ 0 _ => true
  | _ => false

/-- The two zeros are equal, and so are all that are not numbers. -/
def sameNumber (a b : Binary64) : Bool :=
  a == b || (a.isZero && b.isZero)

end Binary64

end Schemata
