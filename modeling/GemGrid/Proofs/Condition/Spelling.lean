import GemGrid.Condition.Printer
import GemGrid.Condition.Token
import GemGrid.Proofs.Results

/-!
# The tokens of a written condition

`Condition.tokens` is the token list that a tree is written as, with the parentheses that
`Condition.render` puts.  `scan_render` says that scanning the written text gives this list.

A scan that has come to the end of a word goes on as if the word had not been there
(`scanFrom_of_boundary`), so the tokens of a text can be found piece by piece: the statement for a
tree allows any text after it that does not continue a word.
-/

namespace GemGrid

/-! ## Scanning words -/

namespace Text

theorem isNameChar_of_isNameStart {c : Char} (h : isNameStart c = true) : isNameChar c = true := by
  simp only [isNameStart, isNameChar, Char.isAlphanum, Bool.or_eq_true] at h ⊢
  rcases h with h | h
  · exact .inl (.inl h)
  · exact .inr h

/-- The characters of words lie between `0` and `z`. -/
theorem toNat_of_isNameChar {c : Char} (h : isNameChar c = true) :
    48 ≤ c.toNat ∧ c.toNat ≤ 122 := by
  change (((decide (c.val ≥ 'A'.val ∧ c.val ≤ 'Z'.val) || (c.val ≥ 'a'.val && c.val ≤ 'z'.val)) ||
    (c.val ≥ '0'.val && c.val ≤ '9'.val)) || c == '_') = true at h
  simp only [Bool.or_eq_true, Bool.and_eq_true, decide_eq_true_eq, beq_iff_eq, ge_iff_le,
    UInt32.le_iff_toNat_le] at h
  rcases h with ((⟨hlow, hhigh⟩ | ⟨hlow, hhigh⟩) | ⟨hlow, hhigh⟩) | rfl
  · exact ⟨Nat.le_trans (by decide) hlow, Nat.le_trans hhigh (by decide)⟩
  · exact ⟨Nat.le_trans (by decide) hlow, Nat.le_trans hhigh (by decide)⟩
  · exact ⟨hlow, Nat.le_trans hhigh (by decide)⟩
  · decide

theorem isBlank_eq_false_of_isNameChar {c : Char} (h : isNameChar c = true) :
    isBlank c = false := by
  have := toNat_of_isNameChar h
  simp only [isBlank, Bool.or_eq_false_iff, Bool.and_eq_false_iff, decide_eq_false_iff_not,
    beq_eq_false_iff_ne]
  omega

theorem isNameChar_eq_false_of_isBlank {c : Char} (h : isBlank c = true) :
    isNameChar c = false := by
  rw [Bool.eq_false_iff]
  intro hname
  rw [isBlank_eq_false_of_isNameChar hname] at h
  cases h

end Text

namespace ConditionToken

/-- A text that does not continue a word: nothing, or a blank or a closing parenthesis first. -/
inductive WordEnd : List Char → Prop
  | nil : WordEnd []
  | space (cs : List Char) : WordEnd (' ' :: cs)
  | rparen (cs : List Char) : WordEnd (')' :: cs)

/-- What no sign starts with is a blank, goes on with a word or starts one, or is an error. -/
theorem scanFrom_of_not_sign {c : Char} (h : c ∉ ['&', '|', '!', '(', ')']) (word cs : List Char) :
    scanFrom word (c :: cs) =
      if Text.isBlank c then do return flush word ++ (← scanFrom [] cs)
      else if Text.isNameStart c || (!word.isEmpty && Text.isNameChar c) then scanFrom (c :: word) cs
      else .error (.strangeCharacter c) := by
  simp only [List.mem_cons, List.not_mem_nil, or_false, not_or] at h
  obtain ⟨hand, hor, hnot, hlparen, hrparen⟩ := h
  rw [scanFrom.eq_def]
  split <;> simp_all

/-- What a sign starts with is no blank, and does not go on with a word. -/
theorem not_blank_of_sign {c : Char} (h : c ∈ ['&', '|', '!', '(', ')']) :
    Text.isBlank c = false ∧ Text.isNameChar c = false := by
  simp only [List.mem_cons, List.not_mem_nil, or_false] at h
  rcases h with rfl | rfl | rfl | rfl | rfl <;> decide

/-- A blank ends a word. -/
theorem scanFrom_blank {c : Char} (hc : Text.isBlank c = true) (word cs : List Char) :
    scanFrom word (c :: cs) = do return flush word ++ (← scanFrom [] cs) := by
  have hsign : c ∉ ['&', '|', '!', '(', ')'] := fun hmem => by
    rw [(not_blank_of_sign hmem).1] at hc
    cases hc
  rw [scanFrom_of_not_sign hsign, if_pos hc]

/-- What goes on with a word is one of the characters of words. -/
theorem isNameChar_of_letter {word : List Char} {c : Char}
    (h : (Text.isNameStart c || (!word.isEmpty && Text.isNameChar c)) = true) :
    Text.isNameChar c = true := by
  rw [Bool.or_eq_true, Bool.and_eq_true] at h
  rcases h with h | h
  · exact Text.isNameChar_of_isNameStart h
  · exact h.2

/-- A letter of a word is collected. -/
theorem scanFrom_letter {word : List Char} {c : Char} (cs : List Char)
    (hc : (Text.isNameStart c || (!word.isEmpty && Text.isNameChar c)) = true) :
    scanFrom word (c :: cs) = scanFrom (c :: word) cs := by
  have hname := isNameChar_of_letter hc
  have hblank := Text.isBlank_eq_false_of_isNameChar hname
  have hsign : c ∉ ['&', '|', '!', '(', ')'] := fun hmem => by
    rw [(not_blank_of_sign hmem).2] at hname
    cases hname
  rw [scanFrom_of_not_sign hsign, hblank, if_neg Bool.false_ne_true, if_pos hc]

/-- The letters of a word are collected, last letter first. -/
theorem scanFrom_letters {word letters : List Char} (cs : List Char) (hword : word ≠ [])
    (hletters : letters.all Text.isNameChar = true) :
    scanFrom word (letters ++ cs) = scanFrom (letters.reverse ++ word) cs := by
  induction letters generalizing word with
  | nil => rfl
  | cons c letters ih =>
      simp only [List.all_cons, Bool.and_eq_true] at hletters
      rw [List.cons_append, scanFrom_letter _ (by simp [hword, hletters.1]),
        ih (by simp) hletters.2, List.reverse_cons, List.append_assoc]
      rfl

theorem not_isNameChar_of_wordEnd {rest : List Char} (h : WordEnd rest) :
    ∀ c ∈ rest.head?, Text.isNameChar c = false := by
  intro c hc
  cases h with
  | nil => cases hc
  | space cs | rparen cs =>
      obtain rfl := Option.some.inj hc
      decide

/-- A word that has ended becomes a token, and the scan goes on without it. -/
theorem scanFrom_of_boundary {rest : List Char}
    (hrest : ∀ c ∈ rest.head?, Text.isNameChar c = false) {ts : List ConditionToken}
    (hscan : scanFrom [] rest = .ok ts) (word : List Char) :
    scanFrom word rest = .ok (flush word ++ ts) := by
  fun_cases scanFrom word rest with
  | case1 =>
      obtain rfl : [] = ts := Except.ok.inj hscan
      rw [List.append_nil]
  | case2 cs | case3 cs | case4 cs | case5 cs | case6 cs =>
      change (do return _ :: (← scanFrom [] cs)) = _ at hscan
      obtain ⟨inner, hinner, heq⟩ := exists_of_bind_eq_ok hscan
      cases heq
      rw [hinner]
      rfl
  | case7 c cs _ _ _ _ _ hblank =>
      rw [scanFrom_blank hblank] at hscan
      obtain ⟨inner, hinner, heq⟩ := exists_of_bind_eq_ok hscan
      cases heq
      rw [hinner]
      rfl
  | case8 c cs _ _ _ _ _ _ hletter =>
      -- a letter would make the word longer, but the rest starts with none
      have hname := isNameChar_of_letter hletter
      rw [hrest c rfl] at hname
      cases hname
  | case9 c cs _ _ _ _ _ hblank hletter =>
      rw [scanFrom.eq_def] at hscan
      split at hscan <;> simp_all

/-- A sign is a token by itself. -/
theorem scanFrom_sign (t : ConditionToken) (ht : ∀ name, t ≠ .ident name) {cs : List Char}
    {ts : List ConditionToken} (hscan : scanFrom [] cs = .ok ts) :
    scanFrom [] (t.render.toList ++ cs) = .ok (t :: ts) := by
  have hsign : scanFrom [] (t.render.toList ++ cs) = do return t :: (← scanFrom [] cs) := by
    cases t with
    | ident name => exact absurd rfl (ht name)
    | and | or | not | lparen | rparen => rfl
  rw [hsign, hscan]
  rfl

/-- A word is a token. -/
theorem scanFrom_word {name rest : List Char} (hname : Text.isName name = true)
    (hrest : ∀ c ∈ rest.head?, Text.isNameChar c = false) {ts : List ConditionToken}
    (hscan : scanFrom [] rest = .ok ts) :
    scanFrom [] (name ++ rest) = .ok (ofWord name :: ts) := by
  cases name with
  | nil => simp [Text.isName] at hname
  | cons c letters =>
      simp only [Text.isName, Bool.and_eq_true] at hname
      rw [List.cons_append, scanFrom_letter _ (by simp [hname.1]),
        scanFrom_letters _ (by simp) hname.2, scanFrom_of_boundary hrest hscan]
      simp [flush]

end ConditionToken

/-! ## The tokens of a tree -/

/-- The token of a connective. -/
def LogicalOp.token : LogicalOp → ConditionToken
  | .and => .and
  | .or => .or

namespace Condition

open ConditionToken (WordEnd scanFrom)

/-- Puts tokens in parentheses if they need them. -/
def wrapTokens (parens : Bool) (ts : List ConditionToken) : List ConditionToken :=
  if parens then .lparen :: (ts ++ [.rparen]) else ts

/-- The tokens that a condition is written as. -/
def tokens : Condition → List ConditionToken
  | .predicate p => [.ident p.name]
  | .not c => .not :: wrapTokens c.isLogical c.tokens
  | .logical op l r =>
    wrapTokens (l.needsParens op false) l.tokens ++
      op.token :: wrapTokens (r.needsParens op true) r.tokens

/-- A connective with the blanks around it. -/
theorem scanFrom_symbol (op : LogicalOp) {cs : List Char} {more : List ConditionToken}
    (h : scanFrom [] cs = .ok more) :
    scanFrom [] (' ' :: (op.symbol.toList ++ ' ' :: cs)) = .ok (op.token :: more) := by
  have hsymbol : op.symbol = op.token.render := by cases op <;> rfl
  have hblank : scanFrom [] (' ' :: cs) = .ok more := by
    rw [ConditionToken.scanFrom_blank (by decide), h]
    rfl
  have hword : ∀ name, op.token ≠ .ident name := by cases op <;> simp [LogicalOp.token]
  have hsign := ConditionToken.scanFrom_sign op.token hword hblank
  rw [ConditionToken.scanFrom_blank (by decide), hsymbol, hsign]
  rfl

/-- A text is scanned as some tokens, whatever comes after it. -/
def ScansAs (text : String) (ts : List ConditionToken) : Prop :=
  ∀ rest more, WordEnd rest → scanFrom [] rest = .ok more →
    scanFrom [] (text.toList ++ rest) = .ok (ts ++ more)

theorem ScansAs.wrap {text : String} {ts : List ConditionToken} (h : ScansAs text ts)
    (parens : Bool) : ScansAs (Condition.wrap parens text) (wrapTokens parens ts) := by
  cases parens with
  | false => exact h
  | true =>
      intro rest more hrest hscan
      -- the closing parenthesis is no letter, so what is inside may end in a word
      have hclose : scanFrom [] (')' :: rest) = .ok (.rparen :: more) :=
        ConditionToken.scanFrom_sign .rparen (by simp) hscan
      have hinside := h _ _ (.rparen rest) hclose
      have htext : (Condition.wrap true text).toList ++ rest =
          '(' :: (text.toList ++ ')' :: rest) := by
        simp [Condition.wrap]
      have hopen : scanFrom [] ('(' :: (text.toList ++ ')' :: rest)) =
          .ok (.lparen :: (ts ++ .rparen :: more)) :=
        ConditionToken.scanFrom_sign .lparen (by simp) hinside
      rw [htext, hopen]
      simp [wrapTokens]

theorem scansAs_name (p : Predicate) : ScansAs p.name [.ident p.name] := by
  intro rest more hrest hscan
  have hname : Text.isName p.name.toList = true := by cases p <;> decide
  have hnot : Text.sameWord "not" p.name.toList = false := by cases p <;> decide
  have hword := ConditionToken.scanFrom_word hname
    (ConditionToken.not_isNameChar_of_wordEnd hrest) hscan
  simpa [ConditionToken.ofWord, hnot] using hword

theorem scansAs_render (c : Condition) : ScansAs c.render c.tokens := by
  induction c with
  | predicate p => exact scansAs_name p
  | not c ih =>
      intro rest more hrest hscan
      have hoperand := ih.wrap c.isLogical rest more hrest hscan
      have htext : (Condition.not c).render.toList ++ rest =
          '!' :: ((Condition.wrap c.isLogical c.render).toList ++ rest) := by
        simp [render]
      rw [htext]
      exact ConditionToken.scanFrom_sign .not (by simp) hoperand
  | logical op l r ihl ihr =>
      intro rest more hrest hscan
      -- from right to left, as each part is scanned with what follows it
      have hright := ihr.wrap (r.needsParens op true) rest more hrest hscan
      have hsign := scanFrom_symbol op hright
      have hleft := ihl.wrap (l.needsParens op false) _ _ (.space _) hsign
      have htext : (Condition.logical op l r).render.toList ++ rest =
          (Condition.wrap (l.needsParens op false) l.render).toList ++ (' ' :: (op.symbol.toList ++
          ' ' :: ((Condition.wrap (r.needsParens op true) r.render).toList ++ rest))) := by
        simp [render]
      rw [htext, hleft]
      simp [tokens]

/-- Scanning a written condition gives its tokens. -/
theorem scan_render (c : Condition) : ConditionToken.scan c.render.toList = .ok c.tokens := by
  have hscan : scanFrom [] c.render.toList = .ok c.tokens := by
    simpa using scansAs_render c [] [] .nil rfl
  have hne : c.tokens ≠ [] := by cases c <;> simp [tokens]
  rw [ConditionToken.scan, hscan]
  cases htokens : c.tokens with
  | nil => exact absurd htokens hne
  | cons t ts => rfl

end Condition

end GemGrid
