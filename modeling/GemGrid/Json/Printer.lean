import GemGrid.Json.Basic

/-!
# Writing JSON

Two layouts: `compact` has no blanks at all, `pretty` puts every item on a line of its own,
indented by two spaces a level.  In a string only quotes, backslashes and control characters are
escaped; the five control characters with a letter of their own use it.
-/

namespace GemGrid.Json

/-- The lower-case hexadecimal digit of a number below sixteen. -/
def hexDigit (n : Nat) : Char :=
  Nat.digitChar n

/-- A character as it stands inside a string. -/
def escapeChar (c : Char) : List Char :=
  if c = '"' then ['\\', '"']
  else if c = '\\' then ['\\', '\\']
  else if c = '\x08' then ['\\', 'b']
  else if c = '\x0c' then ['\\', 'f']
  else if c = '\n' then ['\\', 'n']
  else if c = '\r' then ['\\', 'r']
  else if c = '\t' then ['\\', 't']
  else if c.toNat < 0x20 then
    ['\\', 'u', '0', '0', hexDigit (c.toNat / 16), hexDigit (c.toNat % 16)]
  else [c]

/-- A text in quotes. -/
def quote (s : String) : String :=
  "\"" ++ String.ofList (s.toList.flatMap escapeChar) ++ "\""

/-- Texts with a separator between neighbours. -/
def joined (separator : String) (texts : List String) : String :=
  separator.intercalate texts

/-- The text of a value that has no parts. -/
def leaf : Json → String
  | .null => "null"
  | .bool true => "true"
  | .bool false => "false"
  | .int i => toString i
  | .real numeral => numeral
  | .str s => quote s
  | .arr _ | .obj _ => ""

/-! ## Without blanks -/

mutual

/-- The text of a value without blanks. -/
def compact : Json → String
  | .arr items => "[" ++ joined "," (compactItems items) ++ "]"
  | .obj fields => "\x7b" ++ joined "," (compactFields fields) ++ "\x7d"
  | j => j.leaf

/-- The texts of array items. -/
def compactItems : List Json → List String
  | [] => []
  | item :: items => item.compact :: compactItems items

/-- The texts of object fields. -/
def compactFields : List (String × Json) → List String
  | [] => []
  | (name, value) :: fields => (quote name ++ ":" ++ value.compact) :: compactFields fields

end

/-! ## With line breaks -/

/-- A line break followed by the indentation of a level. -/
def newLine (level : Nat) : String :=
  "\n" ++ String.ofList (List.replicate (2 * level) ' ')

/-- Texts one a line between two brackets. -/
def spread (opening closing : String) (level : Nat) (texts : List String) : String :=
  if texts.isEmpty then opening ++ closing
  else
    opening ++ newLine (level + 1) ++ joined ("," ++ newLine (level + 1)) texts
      ++ newLine level ++ closing

mutual

/-- The text of a value at a level of indentation. -/
def prettyAt (level : Nat) : Json → String
  | .arr items => spread "[" "]" level (prettyItems (level + 1) items)
  | .obj fields => spread "\x7b" "\x7d" level (prettyFields (level + 1) fields)
  | j => j.leaf

/-- The texts of array items. -/
def prettyItems (level : Nat) : List Json → List String
  | [] => []
  | item :: items => prettyAt level item :: prettyItems level items

/-- The texts of object fields. -/
def prettyFields (level : Nat) : List (String × Json) → List String
  | [] => []
  | (name, value) :: fields =>
    (quote name ++ ": " ++ prettyAt level value) :: prettyFields level fields

end

/-- The text of a value with every item on a line of its own. -/
def pretty (j : Json) : String :=
  prettyAt 0 j

end GemGrid.Json
