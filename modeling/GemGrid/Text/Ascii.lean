/-!
# Letters, words and letter case

Identifiers and keywords of the script language are ASCII.  Keyword comparison comes in two
strengths:

* `sameWord` ignores the case of ASCII letters only;
* `foldsTo` also counts the two characters outside ASCII whose simple case folding is an ASCII
  letter: the long s `ſ` folds to `s`, and the Kelvin sign folds to `k`.

Signs are compared exactly: `after?` looks at the start of a text, `find?` for the first place.
-/

namespace GemGrid.Text

/-- The characters an identifier may start with. -/
def isNameStart (c : Char) : Bool :=
  c.isAlpha || c == '_'

/-- The characters an identifier may go on with. -/
def isNameChar (c : Char) : Bool :=
  c.isAlphanum || c == '_'

/-- Whether a text is an identifier: a letter or underscore, then letters, digits, underscores. -/
def isName : List Char → Bool
  | [] => false
  | c :: cs => isNameStart c && cs.all isNameChar

/-- Whether a text is the lower-case word `word`, up to the case of ASCII letters. -/
def sameWord (word : String) (cs : List Char) : Bool :=
  cs.map Char.toLower == word.toList

/-- The lower-case form of a character under simple case folding, as far as it is ASCII. -/
def fold (c : Char) : Char :=
  if c = 'ſ' then 's' else if c = '\u212A' then 'k' else c.toLower

/-- Whether a text folds to the lower-case word `word`. -/
def foldsTo (word : String) (cs : List Char) : Bool :=
  cs.map fold == word.toList

/-- What follows the lower-case word `word` at the start of a text, up to ASCII case. -/
def afterWord? (word : String) (cs : List Char) : Option (List Char) :=
  if sameWord word (cs.take word.length) then some (cs.drop word.length) else none

/-- What follows `text` at the start of a text, exactly as written. -/
def after? (text : String) (cs : List Char) : Option (List Char) :=
  if text.toList.isPrefixOf cs then some (cs.drop text.length) else none

/-- Where `sign` stands in a text for the first time, as the number of characters before it. -/
def find? (sign : List Char) : List Char → Option Nat
  | [] => if sign.isEmpty then some 0 else none
  | c :: cs => if sign.isPrefixOf (c :: cs) then some 0 else (find? sign cs).map (· + 1)

end GemGrid.Text
