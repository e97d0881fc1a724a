import Mathlib.Data.Rat.Floor
import Mathlib.Tactic.Common

/-!
# Reading numbers: `sscanf` with `%d` and `%lf`

The two conversions, as the C library of the platform carries them out on a string: white space is
skipped, the longest sequence of the right form is read, and the conversion fails when there is no
digit at all. `none` is a failed conversion, which stores nothing, so the caller keeps what its
variable held before.

* `%d` gives the 32 bits that are stored. A number out of range is clamped to the range of `long`,
  and the sign is part of the text.
* `%lf` reads a decimal number with an optional fraction and exponent, and the special forms `inf`
  and `nan`. The digits are collected as one rational number first, and that is rounded once. A
  hexadecimal number is read up to its first letter, as the libraries without that extension do.

A `Double` is a binary64 value. The finite ones are the rationals they stand for, so the sign of a
zero is not kept; nothing in the program tells the two zeros apart. `Double.ofRat` rounds to
nearest, ties to even, with gradual underflow and with overflow to an infinity. It is executable:
the exponent of the unit in the last place comes from the binary logarithms of numerator and
denominator. That it is a rounding in the sense of the arithmetic is shown elsewhere; here are the
definitions only.

Characters are bytes, and the text predicates are those of the C locale. `ascii` turns a string
literal of the source into its bytes.
-/

namespace EspBode

/-! ### Text -/

/-- The byte of an ASCII character. -/
def chr (c : Char) : UInt8 :=
  UInt8.ofNat c.toNat

/-- The bytes of an ASCII string literal, without the terminator. -/
def ascii (s : String) : List UInt8 :=
  s.toList.map chr

/-- `isspace` in the C locale. -/
def isSpace (c : UInt8) : Bool :=
  c == 32 || (9 ≤ c && c ≤ 13)

/-- `isdigit`. -/
def isDigit (c : UInt8) : Bool :=
  48 ≤ c && c ≤ 57

/-- `tolower` in the C locale. -/
def toLower (c : UInt8) : UInt8 :=
  if 65 ≤ c ∧ c ≤ 90 then c + 32 else c

/-- The number that a sequence of decimal digits spells. -/
def digitsValue (ds : List UInt8) : ℕ :=
  ds.foldl (fun acc c ↦ 10 * acc + (c.toNat - 48)) 0

/-- Whether a sign makes the number negative, and the text behind the sign. -/
def scanSign : List UInt8 → Bool × List UInt8
  | [] => (false, [])
  | c :: cs =>
    if c = chr '-' then (true, cs) else if c = chr '+' then (false, cs) else (false, c :: cs)

/-! ### Integers -/

/-- `sscanf(s, "%d", &n)`, as the bits that are stored. A number out of range is clamped to the
range of `long`, which has 32 bits here. -/
def sscanfD (s : List UInt8) : Option UInt32 :=
  let (negative, s) := scanSign (s.dropWhile isSpace)
  let digits := s.takeWhile isDigit
  if digits = [] then none
  else
    let m : ℤ := digitsValue digits
    some (UInt32.ofInt (max (-2 ^ 31) (min (2 ^ 31 - 1) (if negative then -m else m))))

/-! ### Doubles -/

/-- A binary64 value. -/
inductive Double
  | finite (value : ℚ)
  | infinite (negative : Bool)
  | nan
  deriving DecidableEq, Repr

/-- The nearest integer, ties to even. -/
def roundHalfEven (q : ℚ) : ℤ :=
  let f := ⌊q⌋
  if q - f < 1 / 2 then f
  else if 1 / 2 < q - f then f + 1
  else if f % 2 = 0 then f else f + 1

/-- A power of two. -/
def twoPow (e : ℤ) : ℚ :=
  if 0 ≤ e then ((2 ^ e.toNat : ℕ) : ℚ) else 1 / ((2 ^ (-e).toNat : ℕ) : ℚ)

/-- The exponent of the unit in the last place of a significand of 53 bits. -/
def ulpExponent (q : ℚ) : ℤ :=
  let e : ℤ := (Nat.log2 q.num.natAbs : ℤ) - (Nat.log2 q.den : ℤ)
  let e := if twoPow e ≤ |q| then e else e - 1
  max (e - 52) (-1074)

namespace Double

/-- Round a number to binary64. -/
def ofRat (q : ℚ) : Double :=
  let u := twoPow (ulpExponent q)
  let r := roundHalfEven (q / u) * u
  if twoPow 1024 ≤ |r| then .infinite (r < 0) else .finite r

/-- Conversion of a small integer, which is exact. -/
def ofNat (n : ℕ) : Double :=
  .finite n

end Double

/-- The exponent part of a number: 0 unless the letter and at least one digit are there. -/
def scanExponent : List UInt8 → ℤ
  | [] => 0
  | c :: cs =>
    if toLower c = chr 'e' then
      let (negative, cs) := scanSign cs
      let digits := cs.takeWhile isDigit
      if negative then -(digitsValue digits : ℤ) else digitsValue digits
    else 0

/-- The fraction digits of a number, and the text behind them. -/
def scanFraction : List UInt8 → List UInt8 × List UInt8
  | [] => ([], [])
  | c :: cs => if c = chr '.' then (cs.takeWhile isDigit, cs.dropWhile isDigit) else ([], c :: cs)

/-- `sscanf(s, "%lf", &x)`. -/
def sscanfLf (s : List UInt8) : Option Double :=
  let (negative, s) := scanSign (s.dropWhile isSpace)
  if ascii "inf" <+: s.map toLower then some (.infinite negative)
  else if ascii "nan" <+: s.map toLower then some .nan
  else
    let whole := s.takeWhile isDigit
    let (fraction, s) := scanFraction (s.dropWhile isDigit)
    if whole ++ fraction = [] then none
    else
      let e := scanExponent s - fraction.length
      let m : ℚ := digitsValue (whole ++ fraction)
      let q := if 0 ≤ e then m * (10 ^ e.toNat : ℕ) else m / (10 ^ (-e).toNat : ℕ)
      some (Double.ofRat (if negative then -q else q))

example : sscanfD (ascii " -12:") = some (0 - 12) := by decide

example : sscanfLf (ascii "-1.5e2,") = some (.finite (-150)) := by decide +kernel

example : sscanfLf (ascii "e5") = none := by decide

end EspBode
