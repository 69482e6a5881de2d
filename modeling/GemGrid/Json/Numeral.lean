import GemGrid.Json.Basic
import GemGrid.Text.Decimal

/-!
# Numerals

The numerals of JSON texts: an optional minus sign, digits without superfluous zeros, an optional
fraction and an optional exponent.  A numeral without fraction and exponent is an integer if it
fits 64 bits, signed or unsigned; minus zero is not one.

A numeral that is not an integer has a value only if it is in the range of double precision.
Whether it is can be told without floating-point numbers: the leading digits that fit 64 bits and
the power of ten that belongs to them are rounded to 53 binary digits each, and their product may
not reach `beyondDouble`.
-/

namespace GemGrid.Json

/-- A numeral. -/
structure Numeral where
  /-- The numeral as it is written. -/
  text : String
  negative : Bool
  /-- The digits in front of the point. -/
  units : List Char
  /-- The digits behind the point. -/
  fraction : List Char
  exponent : Option Int
deriving DecidableEq, Repr, Inhabited

/-! ## Grammar -/

/-- Splits off a run of digits. -/
def takeDigits (cs : List Char) : List Char × List Char :=
  (cs.takeWhile Char.isDigit, cs.dropWhile Char.isDigit)

/-- Whether a run of digits is not empty and has no superfluous zeros. -/
def areUnits : List Char → Bool
  | [] => false
  | ['0'] => true
  | d :: _ => d != '0'

/-- The digits of an optional fraction, and what follows it. -/
def fraction? : List Char → Option (List Char × List Char)
  | '.' :: cs =>
    let (digits, rest) := takeDigits cs
    if digits.isEmpty then none else some (digits, rest)
  | cs => some ([], cs)

/-- The optional exponent that a text is. -/
def exponent? : List Char → Option (Option Int)
  | [] => some none
  | e :: cs =>
    if e = 'e' ∨ e = 'E' then
      match cs with
      | '+' :: digits => (Text.digits? digits).map fun n => some (n : Int)
      | '-' :: digits => (Text.digits? digits).map fun n => some (-(n : Int))
      | digits => (Text.digits? digits).map fun n => some (n : Int)
    else none

namespace Numeral

/-- The numeral that a text is. -/
def ofChars? (cs : List Char) : Option Numeral := do
  let (negative, unsigned) := match cs with
    | '-' :: rest => (true, rest)
    | _ => (false, cs)
  let (units, rest) := takeDigits unsigned
  if !areUnits units then none
  else
    let (fraction, rest) ← fraction? rest
    let exponent ← exponent? rest
    return { text := String.ofList cs, negative, units, fraction, exponent }

/-! ## Values -/

/-- The integer that a numeral is, if it is one that fits 64 bits. -/
def integer? (n : Numeral) : Option Int :=
  let m := Nat.ofDigitChars 10 n.units 0
  let fits := if n.negative then m != 0 && m ≤ Text.maxSigned64 + 1 else m ≤ Text.max64
  if n.fraction.isEmpty && n.exponent.isNone && fits then
    some (if n.negative then -(m : Int) else m)
  else none

/-- Appends digits to a number as long as it fits 64 bits; the second part says how many. -/
def absorb (m : Nat) : List Char → Nat × Nat
  | [] => (m, 0)
  | c :: cs =>
    let next := m * 10 + (c.toNat - '0'.toNat)
    if next ≤ Text.max64 then
      let (significand, count) := absorb next cs
      (significand, count + 1)
    else (m, 0)

/-- The leading digits of a numeral as a number, and the power of ten to multiply it by. -/
def scaled (n : Numeral) : Nat × Int :=
  let (m, unitCount) := absorb 0 n.units
  let (significand, fractionCount) := absorb m n.fraction
  (significand, n.exponent.getD 0 + (n.units.length - unitCount : Nat) - fractionCount)

/-- The nearest number with at most 53 binary digits before its zeros; a tie goes to the one whose
last such digit is zero. -/
def nearestDouble (n : Nat) : Nat :=
  let unit := 1 <<< (n.log2 - 52)
  let below := n / unit
  let rest := 2 * (n % unit)
  if unit < rest ∨ (unit = rest ∧ below % 2 = 1) then (below + 1) * unit else below * unit

/-- The least number that is too large for double precision: half a unit of the last place above
the largest that is not. -/
def beyondDouble : Nat :=
  (1 <<< 1024) - (1 <<< 970)

/-- The largest power of ten in double precision. -/
def maxPower : Nat := 308

/-- Whether a numeral is in the range of double precision. -/
def isDouble (n : Numeral) : Bool :=
  match n.scaled with
  | (0, _) => true
  | (_, .negSucc _) => true
  | (m, .ofNat e) =>
    e ≤ maxPower && nearestDouble m * nearestDouble (Nat.pow 10 e) < beyondDouble

/-- The value of a numeral. -/
def value? (n : Numeral) : Option Json :=
  match n.integer? with
  | some i => some (.int i)
  | none => if n.isDouble then some (.real n.text) else none

end Numeral

end GemGrid.Json
