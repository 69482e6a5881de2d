/-!
# Quoted texts

A text in quotes as it is written: characters that stand for themselves, one-letter escapes, and
UTF-16 units in hexadecimal.  A character beyond the first plane is written as two units, a high
and a low surrogate; a surrogate without its other half stands for no character.

The written form is kept because not every quoted text is asked for its meaning.
-/

namespace GemGrid.Json

/-- A part of a quoted text. -/
inductive QuotedPart where
  /-- A character that stands for itself. -/
  | literal (c : Char)
  /-- The character of a one-letter escape. -/
  | escape (c : Char)
  /-- A UTF-16 unit. -/
  | unit (u : Nat)
deriving DecidableEq, Repr, Inhabited

/-- A quoted text. -/
structure Quoted where
  parts : List QuotedPart
deriving DecidableEq, Repr, Inhabited

/-- Whether a UTF-16 unit is the first half of a pair. -/
def isHighSurrogate (u : Nat) : Bool :=
  0xD800 ≤ u && u ≤ 0xDBFF

/-- Whether a UTF-16 unit is the second half of a pair. -/
def isLowSurrogate (u : Nat) : Bool :=
  0xDC00 ≤ u && u ≤ 0xDFFF

/-- The character of a pair of surrogates. -/
def pairedChar (high low : Nat) : Char :=
  Char.ofNat (0x10000 + (high - 0xD800) * 0x400 + (low - 0xDC00))

namespace Quoted

/-- The characters that parts stand for, put in front of those decoded so far; the last comes
first. -/
def decodeOnto? (done : List Char) : List QuotedPart → Option (List Char)
  | [] => some done
  | .literal c :: parts | .escape c :: parts => decodeOnto? (c :: done) parts
  | .unit u :: parts =>
    if isHighSurrogate u then
      match parts with
      | .unit v :: rest =>
        if isLowSurrogate v then decodeOnto? (pairedChar u v :: done) rest else none
      | _ => none
    else if isLowSurrogate u then none
    else decodeOnto? (Char.ofNat u :: done) parts

/-- The text that a quoted text stands for. -/
def text? (q : Quoted) : Option String :=
  (decodeOnto? [] q.parts).map fun cs => String.ofList cs.reverse

/-- The character of a part that stands for itself. -/
def literal? : QuotedPart → Option Char
  | .literal c => some c
  | _ => none

/-- The text of a quoted text that is written without escapes. -/
def plain? (q : Quoted) : Option String :=
  (q.parts.mapM literal?).map String.ofList

end Quoted

end GemGrid.Json
