import GemGrid.Json.Written

/-!
# Tokens of JSON texts

A JSON text is scanned by a machine that takes one character at a time.  Between tokens it skips
blanks; inside a quoted text, a number or a word it collects characters until the token is
complete.  A quoted text may not contain control characters, and knows no other escapes than
those of `escaped?` and `\u` with four hexadecimal digits.

A text need not consist of tokens to its end: `scan` gives the tokens in front of the first fault
and says whether there was one.
-/

namespace GemGrid.Json

/-- A token of a JSON text. -/
inductive Lexeme where
  | openArr
  | closeArr
  | openObj
  | closeObj
  | colon
  | comma
  | quoted (q : Quoted)
  /-- A word or a numeral. -/
  | leaf (w : Written)
deriving Repr, Inhabited

/-- The value of a word. -/
def ofWord? (cs : List Char) : Option Written :=
  if cs = "null".toList then some .null
  else if cs = "true".toList then some (.bool true)
  else if cs = "false".toList then some (.bool false)
  else none

/-! ## The scanning machine -/

/-- What the machine is in the middle of.  What it has collected comes last first. -/
inductive Mode where
  | between
  | word (collected : List Char)
  | number (collected : List Char)
  | quoted (collected : List QuotedPart)
  | escape (collected : List QuotedPart)
  | unit (collected : List QuotedPart) (missing value : Nat)
deriving Repr, Inhabited

/-- The machine: its mode and the tokens found so far, last first. -/
structure Scanner where
  mode : Mode
  found : List Lexeme
deriving Repr, Inhabited

/-- Whether a character can be part of a numeral. -/
def isNumeric (c : Char) : Bool :=
  c.isDigit || c == '+' || c == '-' || c == '.' || c == 'e' || c == 'E'

/-- The value of a hexadecimal digit. -/
def hexValue? (c : Char) : Option Nat :=
  if c.isDigit then some (c.toNat - '0'.toNat)
  else if 'a' ≤ c ∧ c ≤ 'f' then some (c.toNat - 'a'.toNat + 10)
  else if 'A' ≤ c ∧ c ≤ 'F' then some (c.toNat - 'A'.toNat + 10)
  else none

/-- The character of a one-letter escape. -/
def escaped? (c : Char) : Option Char :=
  if c = '"' ∨ c = '\\' ∨ c = '/' then some c
  else if c = 'b' then some '\x08'
  else if c = 'f' then some '\x0c'
  else if c = 'n' then some '\n'
  else if c = 'r' then some '\r'
  else if c = 't' then some '\t'
  else none

/-- Takes a character between tokens. -/
def begin? (found : List Lexeme) (c : Char) : Option Scanner :=
  if c = ' ' ∨ c = '\n' ∨ c = '\r' ∨ c = '\t' then some ⟨.between, found⟩
  else if c = '[' then some ⟨.between, .openArr :: found⟩
  else if c = ']' then some ⟨.between, .closeArr :: found⟩
  else if c = '\x7b' then some ⟨.between, .openObj :: found⟩
  else if c = '\x7d' then some ⟨.between, .closeObj :: found⟩
  else if c = ':' then some ⟨.between, .colon :: found⟩
  else if c = ',' then some ⟨.between, .comma :: found⟩
  else if c = '"' then some ⟨.quoted [], found⟩
  else if c.isDigit ∨ c = '-' then some ⟨.number [c], found⟩
  else if c.isAlpha then some ⟨.word [c], found⟩
  else none

/-- The tokens found when a word or a number ends. -/
def Scanner.settled? (s : Scanner) : Option (List Lexeme) :=
  match s.mode with
  | .between => some s.found
  | .word cs => (ofWord? cs.reverse).map fun w => .leaf w :: s.found
  | .number cs => (Numeral.ofChars? cs.reverse).map fun n => .leaf (.numeral n) :: s.found
  | _ => none

/-- Takes one character. -/
def feed? (s : Scanner) (c : Char) : Option Scanner :=
  match s.mode with
  | .between => begin? s.found c
  | .word cs =>
    if c.isAlpha then some ⟨.word (c :: cs), s.found⟩ else do begin? (← s.settled?) c
  | .number cs =>
    if isNumeric c then some ⟨.number (c :: cs), s.found⟩ else do begin? (← s.settled?) c
  | .quoted ps =>
    if c = '"' then some ⟨.between, .quoted ⟨ps.reverse⟩ :: s.found⟩
    else if c = '\\' then some ⟨.escape ps, s.found⟩
    else if c.toNat < 0x20 then none
    else some ⟨.quoted (.literal c :: ps), s.found⟩
  | .escape ps =>
    if c = 'u' then some ⟨.unit ps 4 0, s.found⟩
    else (escaped? c).map fun e => ⟨.quoted (.escape e :: ps), s.found⟩
  | .unit ps missing value => do
    let value := value * 16 + (← hexValue? c)
    if missing ≤ 1 then some ⟨.quoted (.unit value :: ps), s.found⟩
    else some ⟨.unit ps (missing - 1) value, s.found⟩

/-! ## Scanning a text -/

/-- The tokens of a text, up to its first fault if it has one. -/
structure Scan where
  lexemes : List Lexeme
  complete : Bool
deriving Repr, Inhabited

/-- The tokens of a text from a state of the machine on. -/
def scanFrom (s : Scanner) : List Char → Scan
  | [] =>
    match s.settled? with
    | some found => { lexemes := found.reverse, complete := true }
    | none => { lexemes := s.found.reverse, complete := false }
  | c :: cs =>
    match feed? s c with
    | some next => scanFrom next cs
    | none => { lexemes := (s.settled?.getD s.found).reverse, complete := false }

/-- The tokens of a text. -/
def scan (text : List Char) : Scan :=
  scanFrom ⟨.between, []⟩ text

end GemGrid.Json
