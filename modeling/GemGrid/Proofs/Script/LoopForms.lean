import GemGrid.Proofs.Results
import GemGrid.Proofs.Script.Relexing
import GemGrid.Script.LoopCount

/-!
# The forms of a loop header

The two forms are those of

    ^for\s+([0-9]+)\s+times$
    ^for\s+(?:[A-Za-z_][A-Za-z0-9_]*|_)\s+in\s+(-?[0-9]+)\s*(\.\.\.|\.\.<)\s*(-?[0-9]+)$

in any letter case, and they are looked for in a header whose blanks have been collapsed.  `Asks`
says what they match; `asks_times_iff` and `asks_range_iff` say that reading a header word by word
finds the same.
-/

namespace GemGrid

open Text

namespace Text

/-! ## Words -/

/-- Blanks, at least one. -/
def IsGap (cs : List Char) : Prop :=
  cs ≠ [] ∧ ∀ c ∈ cs, isBlank c = true

/-- Something without blanks. -/
def IsWord (cs : List Char) : Prop :=
  cs ≠ [] ∧ ∀ c ∈ cs, isBlank c = false

theorem isWord_of_mem_words {cs word : List Char} (h : word ∈ words cs) : IsWord word := by
  obtain ⟨hmem, hne⟩ := List.mem_filter.mp h
  exact ⟨by simpa using hne, not_isBreak_of_mem_pieces isBlank cs word hmem⟩

theorem IsWord.words_eq {word : List Char} (h : IsWord word) : words word = [word] := by
  rw [words, pieces_eq_self h.2]
  simp [h.1]

theorem words_of_blank {gap : List Char} (hgap : ∀ c ∈ gap, isBlank c = true)
    (rest : List Char) : words (gap ++ rest) = words rest := by
  induction gap with
  | nil => rfl
  | cons c gap ih =>
      obtain ⟨hc, hgap⟩ := List.forall_mem_cons.mp hgap
      rw [← ih hgap, List.cons_append, words, pieces, if_pos hc]
      rfl

theorem IsWord.words_append {word gap : List Char} (h : IsWord word) (hgap : IsGap gap)
    (rest : List Char) : words (word ++ (gap ++ rest)) = word :: words rest := by
  obtain ⟨hne, hblank⟩ := hgap
  obtain ⟨b, gap, rfl⟩ := List.exists_cons_of_ne_nil hne
  obtain ⟨hb, hgap⟩ := List.forall_mem_cons.mp hblank
  rw [← words_of_blank hgap rest, words, List.cons_append, pieces_append h.2 hb]
  simp [words, h.1]

theorem isGap_space : IsGap [' '] :=
  ⟨by simp, List.forall_mem_singleton.mpr (by decide)⟩

/-- Words with a space between neighbours are found again. -/
theorem words_intercalate {texts : List (List Char)} (h : ∀ text ∈ texts, IsWord text) :
    words ([' '].intercalate texts) = texts := by
  induction texts with
  | nil => rfl
  | cons text texts ih =>
      obtain ⟨htext, htexts⟩ := List.forall_mem_cons.mp h
      cases texts with
      | nil =>
          rw [List.intercalate_singleton]
          exact htext.words_eq
      | cons next texts =>
          rw [List.intercalate_cons_cons, List.append_assoc, htext.words_append isGap_space,
            ih htexts]

/-- Collapsing the blanks of a text leaves its words. -/
@[simp] theorem words_collapse (cs : List Char) : words (collapse cs) = words cs :=
  words_intercalate fun _ h => isWord_of_mem_words h

/-- A text that starts with no blank starts with a word, and with a longer one if another such
character is put in front. -/
theorem exists_words_cons {d : Char} (hd : isBlank d = false) (cs : List Char) :
    ∃ word more, words (d :: cs) = (d :: word) :: more ∧
      ∀ c, isBlank c = false → words (c :: d :: cs) = (c :: d :: word) :: more := by
  obtain ⟨piece, rest, hpieces⟩ := List.exists_cons_of_ne_nil (pieces_ne_nil isBlank cs)
  have hfirst : pieces isBlank (d :: cs) = (d :: piece) :: rest := by
    rw [pieces, if_neg (Bool.eq_false_iff.mp hd), hpieces]
  refine ⟨piece, rest.filter fun p => !p.isEmpty, by rw [words, hfirst]; rfl, fun c hc => ?_⟩
  rw [words, pieces, if_neg (Bool.eq_false_iff.mp hc), hfirst]
  rfl

/-- Within a word nothing is collapsed. -/
theorem collapse_cons {c d : Char} (hc : isBlank c = false) (hd : isBlank d = false)
    (cs : List Char) : collapse (c :: d :: cs) = c :: collapse (d :: cs) := by
  obtain ⟨word, more, hwords, hlonger⟩ := exists_words_cons hd cs
  rw [collapse, collapse, hwords, hlonger c hc]
  cases more with
  | nil => simp
  | cons next more => simp [List.intercalate_cons_cons]

/-- The space that a gap is collapsed to. -/
def squeeze (gap : List Char) : List Char :=
  if gap = [] then [] else [' ']

theorem IsWord.collapse_eq {word : List Char} (h : IsWord word) : collapse word = word := by
  rw [collapse, h.words_eq, List.intercalate_singleton]

/-- The text starts with something that is no blank. -/
def Starts (cs : List Char) : Prop :=
  ∃ c rest, cs = c :: rest ∧ isBlank c = false

theorem IsWord.starts {word : List Char} (h : IsWord word) (rest : List Char) :
    Starts (word ++ rest) := by
  obtain ⟨c, word, rfl⟩ := List.exists_cons_of_ne_nil h.1
  exact ⟨c, word ++ rest, rfl, h.2 c (List.mem_cons_self ..)⟩

theorem IsWord.collapse_append {word gap rest : List Char} (h : IsWord word)
    (hgap : ∀ c ∈ gap, isBlank c = true) (hrest : Starts rest) :
    collapse (word ++ (gap ++ rest)) = word ++ (squeeze gap ++ collapse rest) := by
  obtain ⟨d, rest, rfl, hd⟩ := hrest
  obtain ⟨hne, hword⟩ := h
  -- with no gap the word goes on with what follows, so it is collapsed letter by letter
  by_cases hempty : gap = []
  · subst hempty
    clear hne
    induction word with
    | nil => rfl
    | cons c word ih =>
        obtain ⟨hc, hword⟩ := List.forall_mem_cons.mp hword
        cases word with
        | nil => exact collapse_cons hc hd rest
        | cons c' word =>
            have hc' := (List.forall_mem_cons.mp hword).1
            have ih := ih hword
            rw [List.cons_append] at ih
            rw [List.cons_append, List.cons_append, collapse_cons hc hc', ih]
            rfl
  · -- a gap ends the word and becomes one blank
    obtain ⟨next, more, hmore, -⟩ := exists_words_cons hd rest
    rw [collapse, IsWord.words_append ⟨hne, hword⟩ ⟨hempty, hgap⟩, hmore,
      List.intercalate_cons_cons, ← hmore, squeeze, if_neg hempty, List.append_assoc, collapse]

/-! ## Letter case -/

/-- Blanks fold to themselves. -/
theorem fold_of_isBlank {c : Char} (h : isBlank c = true) : fold c = c := by
  have hlong : c ≠ 'ſ' := by
    rintro rfl
    exact absurd h (by decide)
  have hkelvin : c ≠ '\u212A' := by
    rintro rfl
    exact absurd h (by decide)
  rw [fold, if_neg hlong, if_neg hkelvin]
  exact Token.toLower_of_isBlank h

/-- What a character folds to is no blank if the character is none. -/
theorem isBlank_eq_false_of_fold {c : Char} (h : isBlank (fold c) = false) :
    isBlank c = false := by
  rw [Bool.eq_false_iff]
  intro hblank
  rw [fold_of_isBlank hblank, hblank] at h
  cases h

theorem fold_eq_iff {c d : Char} (h : d ≠ 's' ∧ d ≠ 'k' ∧ d ≠ 'ſ' ∧ d ≠ '\u212A') :
    fold c = d ↔ c.toLower = d := by
  obtain ⟨hs, hk, hlong, hkelvin⟩ := h
  by_cases hc : c = 'ſ'
  · subst hc
    exact iff_of_false (Ne.symm hs) (Ne.symm hlong)
  by_cases hc' : c = '\u212A'
  · subst hc'
    exact iff_of_false (Ne.symm hk) (Ne.symm hkelvin)
  rw [fold, if_neg hc, if_neg hc']

/-- For a word without the letters that characters outside ASCII fold to, folding is the same as
ASCII case. -/
theorem foldsTo_eq_sameWord {word : String} {cs : List Char}
    (h : ∀ d ∈ word.toList, d ≠ 's' ∧ d ≠ 'k' ∧ d ≠ 'ſ' ∧ d ≠ '\u212A') :
    foldsTo word cs = sameWord word cs := by
  rw [foldsTo, sameWord, Bool.eq_iff_iff, beq_iff_eq, beq_iff_eq]
  generalize word.toList = letters at h
  induction cs generalizing letters with
  | nil => rfl
  | cons c cs ih =>
      cases letters with
      | nil => simp
      | cons d letters =>
          obtain ⟨hd, hletters⟩ := List.forall_mem_cons.mp h
          rw [List.map_cons, List.map_cons, List.cons_eq_cons, List.cons_eq_cons,
            fold_eq_iff hd, ih letters hletters]

theorem isWord_of_foldsTo {word : String} {cs : List Char} (h : foldsTo word cs = true)
    (hword : IsWord word.toList) : IsWord cs := by
  have hletters := eq_of_beq h
  rw [← hletters] at hword
  constructor
  · rintro rfl
    exact hword.1 rfl
  · exact fun c hc => isBlank_eq_false_of_fold (hword.2 _ (List.mem_map_of_mem hc))

end Text

namespace Script

/-! ## The two forms -/

/-- Digits, at least one. -/
def IsNumeral (cs : List Char) : Prop :=
  cs ≠ [] ∧ ∀ c ∈ cs, c.isDigit = true

/-- Digits, with a minus sign in front of them or without. -/
inductive IsBound : List Char → Prop
  | plain {digits : List Char} : IsNumeral digits → IsBound digits
  | minus {digits : List Char} : IsNumeral digits → IsBound ('-' :: digits)

/-- A name, where characters that fold to a letter are letters. -/
inductive IsVariable : List Char → Prop
  | intro {c : Char} {cs : List Char} : isNameStart (fold c) = true →
      (∀ d ∈ cs, isNameChar (fold d) = true) → IsVariable (c :: cs)

/-- The sign between the bounds of a range, by whether the upper one is included. -/
def dots (inclusive : Bool) : List Char :=
  if inclusive then "...".toList else "..<".toList

/-- What a loop header asks for: a number of rounds, or one for each integer of a range. -/
inductive Rounds where
  | times (digits : List Char)
  | range (r : RangeText)

/-- A header in one of the two forms. -/
inductive Asks : List Char → Rounds → Prop
  | times {keyword gap digits gap' unit : List Char} : foldsTo "for" keyword = true → IsGap gap →
      IsNumeral digits → IsGap gap' → foldsTo "times" unit = true →
      Asks (keyword ++ (gap ++ (digits ++ (gap' ++ unit)))) (.times digits)
  | range {keyword gap counter gap' link gap'' before behind : List Char} {r : RangeText} :
      foldsTo "for" keyword = true → IsGap gap → IsVariable counter → IsGap gap' →
      foldsTo "in" link = true → IsGap gap'' → IsBound r.first →
      (∀ c ∈ before, isBlank c = true) → (∀ c ∈ behind, isBlank c = true) → IsBound r.last →
      Asks (keyword ++ (gap ++ (counter ++ (gap' ++ (link ++ (gap'' ++
        (r.first ++ (before ++ (dots r.inclusive ++ (behind ++ r.last)))))))))) (.range r)

/-! ## Numerals and bounds -/

theorem IsNumeral.isWord {cs : List Char} (h : IsNumeral cs) : IsWord cs :=
  ⟨h.1, fun c hc => isBlank_of_isDigit (h.2 c hc)⟩

theorem IsBound.isWord {cs : List Char} (h : IsBound cs) : IsWord cs := by
  cases h with
  | plain hdigits => exact hdigits.isWord
  | minus hdigits =>
      exact ⟨List.cons_ne_nil _ _, List.forall_mem_cons.mpr ⟨by decide, hdigits.isWord.2⟩⟩

theorem IsVariable.isWord {cs : List Char} (h : IsVariable cs) : IsWord cs := by
  cases h with
  | intro hstart hrest =>
      have hletter : ∀ d, isNameChar (fold d) = true → isBlank d = false := fun d hd =>
        isBlank_eq_false_of_fold (isBlank_eq_false_of_isNameChar hd)
      refine ⟨List.cons_ne_nil _ _, List.forall_mem_cons.mpr ⟨?_, fun d hd => ?_⟩⟩
      · exact hletter _ (isNameChar_of_isNameStart hstart)
      · exact hletter d (hrest d hd)

theorem isVariable_iff {cs : List Char} : IsVariable cs ↔ isLoopVariable cs = true := by
  cases cs with
  | nil => exact iff_of_false (fun h => by cases h) (by decide)
  | cons c cs =>
      rw [isLoopVariable, List.map_cons, isName, Bool.and_eq_true, List.all_eq_true,
        List.forall_mem_map]
      constructor
      · rintro ⟨hstart, hrest⟩
        exact ⟨hstart, hrest⟩
      · rintro ⟨hstart, hrest⟩
        exact .intro hstart hrest

/-- A numeral ends where something else than a digit follows. -/
theorem IsNumeral.span {digits rest : List Char} (h : IsNumeral digits)
    (hrest : ∀ c ∈ rest.head?, c.isDigit = false) :
    (digits ++ rest).takeWhile Char.isDigit = digits ∧
      (digits ++ rest).dropWhile Char.isDigit = rest := by
  rw [List.takeWhile_append_of_pos h.2, List.dropWhile_append_of_pos h.2]
  cases rest with
  | nil => simp
  | cons c rest => simp [hrest c rfl]

theorem isNumeral_takeWhile {cs : List Char} (h : cs.takeWhile Char.isDigit ≠ []) :
    IsNumeral (cs.takeWhile Char.isDigit) :=
  ⟨h, fun _ => List.mem_takeWhile_imp⟩

theorem splitBound?_minus (cs : List Char) :
    splitBound? ('-' :: cs) = if cs.takeWhile Char.isDigit = [] then none
      else some ('-' :: cs.takeWhile Char.isDigit, cs.dropWhile Char.isDigit) := by
  simp [splitBound?]

theorem splitBound?_plain {cs : List Char} (h : ∀ c ∈ cs.head?, c ≠ '-') :
    splitBound? cs = if cs.takeWhile Char.isDigit = [] then none
      else some (cs.takeWhile Char.isDigit, cs.dropWhile Char.isDigit) := by
  unfold splitBound?
  split
  · exact absurd rfl (h '-' rfl)
  · simp

theorem splitBound?_append {bound rest : List Char} (h : IsBound bound)
    (hrest : ∀ c ∈ rest.head?, c.isDigit = false) :
    splitBound? (bound ++ rest) = some (bound, rest) := by
  cases h with
  | @plain digits hdigits =>
      obtain ⟨htake, hdrop⟩ := hdigits.span hrest
      have hsign : ∀ c ∈ (bound ++ rest).head?, c ≠ '-' := by
        rintro c hc rfl
        rw [List.head?_append_of_ne_nil _ hdigits.1] at hc
        exact absurd (hdigits.2 '-' (List.mem_of_mem_head? hc)) (by decide)
      rw [splitBound?_plain hsign, htake, hdrop, if_neg hdigits.1]
  | @minus digits hdigits =>
      obtain ⟨htake, hdrop⟩ := hdigits.span hrest
      rw [List.cons_append, splitBound?_minus, htake, hdrop, if_neg hdigits.1]

theorem eq_append_of_splitBound? {cs bound rest : List Char}
    (h : splitBound? cs = some (bound, rest)) : IsBound bound ∧ cs = bound ++ rest := by
  -- a bound begins with its sign or with its first digit
  by_cases hsign : cs.head? = some '-'
  · obtain ⟨behind, rfl⟩ := List.head?_eq_some_iff.mp hsign
    rw [splitBound?_minus] at h
    split at h
    · cases h
    · next hdigits =>
      cases h
      refine ⟨.minus (isNumeral_takeWhile hdigits), ?_⟩
      rw [List.cons_append, List.takeWhile_append_dropWhile]
  · have hplain : ∀ c ∈ cs.head?, c ≠ '-' := by
      rintro c hc rfl
      exact hsign hc
    rw [splitBound?_plain hplain] at h
    split at h
    · cases h
    · next hdigits =>
      cases h
      exact ⟨.plain (isNumeral_takeWhile hdigits), List.takeWhile_append_dropWhile.symm⟩

/-! ## Ranges -/

/-- What is left of a gap when blanks are collapsed. -/
def IsSpace (cs : List Char) : Prop :=
  cs = [] ∨ cs = [' ']

theorem isSpace_squeeze (gap : List Char) : IsSpace (squeeze gap) := by
  unfold squeeze
  split
  · exact .inl rfl
  · exact .inr rfl

theorem skipSpace_append {space rest : List Char} (h : IsSpace space)
    (hrest : ∀ c ∈ rest.head?, c ≠ ' ') : skipSpace (space ++ rest) = rest := by
  rcases h with rfl | rfl
  · rw [List.nil_append]
    unfold skipSpace
    split
    · exact absurd rfl (hrest ' ' rfl)
    · rfl
  · rfl

theorem exists_isSpace_of_skipSpace (cs : List Char) :
    ∃ space, IsSpace space ∧ cs = space ++ skipSpace cs := by
  unfold skipSpace
  split
  · exact ⟨[' '], .inr rfl, rfl⟩
  · exact ⟨[], .inl rfl, rfl⟩

/-- No bound starts with a space. -/
theorem IsBound.head?_ne_space {bound : List Char} (h : IsBound bound) :
    ∀ c ∈ bound.head?, c ≠ ' ' := by
  rintro c hc rfl
  exact absurd (h.isWord.2 ' ' (List.mem_of_mem_head? hc)) (by decide)

/-- What follows the sign at the start of a text. -/
def splitDots? : List Char → Option (Bool × List Char)
  | '.' :: '.' :: '.' :: rest => some (true, rest)
  | '.' :: '.' :: '<' :: rest => some (false, rest)
  | _ => none

theorem splitDots?_eq_some_iff {cs rest : List Char} {inclusive : Bool} :
    splitDots? cs = some (inclusive, rest) ↔ cs = dots inclusive ++ rest := by
  constructor
  · intro h
    unfold splitDots? at h
    split at h
    · cases h
      rfl
    · cases h
      rfl
    · cases h
  · rintro rfl
    cases inclusive <;> rfl

theorem rangeText?_eq (cs : List Char) :
    rangeText? cs = (splitBound? cs).bind fun lower =>
      (splitDots? (skipSpace lower.2)).bind fun sign =>
        (splitBound? (skipSpace sign.2)).bind fun upper =>
          if upper.2 = [] then
            some { first := lower.1, last := upper.1, inclusive := sign.1 }
          else none := by
  unfold rangeText?
  refine congrArg _ (funext fun lower => ?_)
  obtain ⟨first, rest⟩ := lower
  dsimp only
  generalize skipSpace rest = behind
  -- the patterns of the reader are the two signs
  cases hsign : splitDots? behind with
  | some sign =>
      obtain ⟨inclusive, rest⟩ := sign
      obtain rfl := splitDots?_eq_some_iff.mp hsign
      cases inclusive with
      | _ =>
          show (splitBound? (skipSpace rest)).bind _ = (splitBound? (skipSpace rest)).bind _
          refine congrArg _ (funext fun upper => ?_)
          obtain ⟨last, behind⟩ := upper
          cases behind with
          | _ => rfl
  | none =>
      split
      · exact absurd hsign (by simp [splitDots?])
      · exact absurd hsign (by simp [splitDots?])
      · rfl

theorem rangeText?_append {first last before behind : List Char} {inclusive : Bool}
    (hfirst : IsBound first) (hbefore : IsSpace before) (hbehind : IsSpace behind)
    (hlast : IsBound last) :
    rangeText? (first ++ (before ++ (dots inclusive ++ (behind ++ last)))) =
      some { first, last, inclusive } := by
  -- the dots are no digits, so the first bound ends in front of them
  have hdots : ∃ rest, dots inclusive ++ (behind ++ last) = '.' :: rest := by
    cases inclusive <;> exact ⟨_, rfl⟩
  obtain ⟨rest, hrest⟩ := hdots
  have hlower : splitBound? (first ++ (before ++ (dots inclusive ++ (behind ++ last)))) =
      some (first, before ++ (dots inclusive ++ (behind ++ last))) := by
    refine splitBound?_append hfirst ?_
    rw [hrest]
    rcases hbefore with rfl | rfl <;> simp
  have hsign : skipSpace (before ++ (dots inclusive ++ (behind ++ last))) =
      dots inclusive ++ (behind ++ last) := by
    refine skipSpace_append hbefore ?_
    rw [hrest]
    simp
  have hupper : splitBound? last = some (last, []) := by
    have hall : splitBound? (last ++ []) = some (last, []) := splitBound?_append hlast (by simp)
    rwa [List.append_nil] at hall
  rw [rangeText?_eq, hlower, Option.bind_some, hsign, splitDots?_eq_some_iff.mpr rfl,
    Option.bind_some, skipSpace_append hbehind hlast.head?_ne_space, hupper]
  rfl

theorem eq_append_of_rangeText? {cs : List Char} {r : RangeText} (h : rangeText? cs = some r) :
    ∃ before behind, IsBound r.first ∧ IsSpace before ∧ IsSpace behind ∧ IsBound r.last ∧
      cs = r.first ++ (before ++ (dots r.inclusive ++ (behind ++ r.last))) := by
  rw [rangeText?_eq] at h
  obtain ⟨⟨first, rest⟩, hlower, h⟩ := Option.bind_eq_some_iff.mp h
  obtain ⟨⟨inclusive, rest'⟩, hsign, h⟩ := Option.bind_eq_some_iff.mp h
  obtain ⟨⟨last, rest''⟩, hupper, hr⟩ := Option.bind_eq_some_iff.mp h
  -- between the parts there is at most one blank, which is skipped
  obtain ⟨before, hbefore, hrest⟩ := exists_isSpace_of_skipSpace rest
  obtain ⟨behind, hbehind, hrest'⟩ := exists_isSpace_of_skipSpace rest'
  obtain ⟨hfirst, rfl⟩ := eq_append_of_splitBound? hlower
  obtain ⟨hlast, hskipped⟩ := eq_append_of_splitBound? hupper
  obtain ⟨hnil, hr⟩ : rest'' = [] ∧ some { first, last, inclusive } = some r := by simpa using hr
  cases hr
  dsimp only at hsign hskipped
  rw [hnil, List.append_nil] at hskipped
  rw [hskipped] at hrest'
  rw [splitDots?_eq_some_iff.mp hsign, hrest'] at hrest
  exact ⟨before, behind, hfirst, hbefore, hbehind, hlast, by rw [hrest]⟩

/-! ## Headers by their words -/

theorem isWord_keyword {word : String} (hword : word ∈ ["for", "in", "times"]) {cs : List Char}
    (h : foldsTo word cs = true) : IsWord cs := by
  have hletters : word.toList ≠ [] ∧ word.toList.any isBlank = false := by
    simp only [List.mem_cons, List.not_mem_nil, or_false] at hword
    rcases hword with rfl | rfl | rfl <;> exact ⟨by decide, by decide⟩
  exact isWord_of_foldsTo h ⟨hletters.1, eq_false_of_any hletters.2⟩

/-- The keywords `for` and `in` are compared by their ASCII case. -/
theorem foldsTo_keyword {word : String} (hword : word ∈ ["for", "in"]) (cs : List Char) :
    foldsTo word cs = sameWord word cs := by
  simp only [List.mem_cons, List.not_mem_nil, or_false] at hword
  rcases hword with rfl | rfl <;> exact foldsTo_eq_sameWord (by simp)

theorem timesDigits?_eq_some_iff {header digits : List Char} :
    timesDigits? header = some digits ↔ ∃ keyword unit, words header = [keyword, digits, unit] ∧
      foldsTo "for" keyword = true ∧ IsNumeral digits ∧ foldsTo "times" unit = true := by
  unfold timesDigits?
  constructor
  · -- three words, which are the keyword, the digits and the unit
    intro h
    split at h
    · next keyword found unit hwords =>
      split at h
      · next hform =>
        cases h
        simp only [Bool.and_eq_true, List.all_eq_true] at hform
        obtain ⟨⟨hkeyword, hdigits⟩, hunit⟩ := hform
        have hmem : digits ∈ words header := by simp [hwords]
        have hword := isWord_of_mem_words hmem
        refine ⟨keyword, unit, hwords, ?_, ⟨hword.1, hdigits⟩, hunit⟩
        rwa [foldsTo_keyword (by simp)]
      · cases h
    · cases h
  · rintro ⟨keyword, unit, hwords, hkeyword, ⟨_, hdigits⟩, hunit⟩
    rw [foldsTo_keyword (by simp)] at hkeyword
    rw [hwords]
    dsimp only
    rw [hkeyword, List.all_eq_true.mpr hdigits, hunit]
    rfl

theorem headerRange?_eq_some_iff {header : List Char} {r : RangeText} :
    headerRange? header = some r ↔ ∃ keyword counter link bounds,
      words header = keyword :: counter :: link :: bounds ∧ foldsTo "for" keyword = true ∧
        IsVariable counter ∧ foldsTo "in" link = true ∧
        rangeText? ([' '].intercalate bounds) = some r := by
  unfold headerRange?
  constructor
  · intro h
    split at h
    · next keyword counter link bounds hwords =>
      split at h
      · next hform =>
        simp only [Bool.and_eq_true] at hform
        obtain ⟨⟨hkeyword, hcounter⟩, hlink⟩ := hform
        refine ⟨keyword, counter, link, bounds, hwords, ?_, isVariable_iff.mpr hcounter, ?_, h⟩
        · rwa [foldsTo_keyword (by simp)]
        · rwa [foldsTo_keyword (by simp)]
      · cases h
    · cases h
  · rintro ⟨keyword, counter, link, bounds, hwords, hkeyword, hcounter, hlink, hr⟩
    rw [foldsTo_keyword (by simp)] at hkeyword hlink
    rw [hwords]
    dsimp only
    rw [hkeyword, isVariable_iff.mp hcounter, hlink]
    exact hr

theorem isWord_dots (inclusive : Bool) : IsWord (dots inclusive) := by
  cases inclusive <;> exact ⟨by decide, eq_false_of_any (by decide)⟩

/-- Blanks around the sign of a range are collapsed. -/
theorem collapse_bounds {first last before behind : List Char} {inclusive : Bool}
    (hfirst : IsBound first) (hbefore : ∀ c ∈ before, isBlank c = true)
    (hbehind : ∀ c ∈ behind, isBlank c = true) (hlast : IsBound last) :
    collapse (first ++ (before ++ (dots inclusive ++ (behind ++ last)))) =
      first ++ (squeeze before ++ (dots inclusive ++ (squeeze behind ++ last))) := by
  have hstarts := hlast.isWord.starts []
  rw [List.append_nil] at hstarts
  rw [hfirst.isWord.collapse_append hbefore ((isWord_dots inclusive).starts _),
    (isWord_dots inclusive).collapse_append hbehind hstarts, hlast.isWord.collapse_eq]

theorem asks_times_iff {header digits : List Char} :
    Asks (collapse header) (.times digits) ↔ timesDigits? header = some digits := by
  rw [timesDigits?_eq_some_iff]
  constructor
  · intro h
    generalize hcs : collapse header = cs at h
    cases h with
    | @times keyword gap digits gap' unit hkeyword hgap hdigits hgap' hunit =>
        -- the words of the collapsed header are those of the header
        refine ⟨keyword, unit, ?_, hkeyword, hdigits, hunit⟩
        rw [← words_collapse, hcs, (isWord_keyword (by simp) hkeyword).words_append hgap,
          hdigits.isWord.words_append hgap', (isWord_keyword (by simp) hunit).words_eq]
  · rintro ⟨keyword, unit, hwords, hkeyword, hdigits, hunit⟩
    have hheader : collapse header = keyword ++ ([' '] ++ (digits ++ ([' '] ++ unit))) := by
      simp [collapse, hwords, List.intercalate_cons_cons]
    rw [hheader]
    exact .times hkeyword isGap_space hdigits isGap_space hunit

theorem asks_range_iff {header : List Char} {r : RangeText} :
    Asks (collapse header) (.range r) ↔ headerRange? header = some r := by
  rw [headerRange?_eq_some_iff]
  constructor
  · intro h
    generalize hcs : collapse header = cs at h
    cases h with
    | @range keyword gap counter gap' link gap'' before behind r hkeyword hgap hcounter hgap'
        hlink hgap'' hfirst hbefore hbehind hlast =>
        -- collapsing keeps the words, and the bounds are all that is behind the third
        have hwords := words_collapse header
        rw [hcs, (isWord_keyword (by simp) hkeyword).words_append hgap,
          hcounter.isWord.words_append hgap', (isWord_keyword (by simp) hlink).words_append hgap'']
          at hwords
        refine ⟨keyword, counter, link, _, hwords.symm, hkeyword, hcounter, hlink, ?_⟩
        show rangeText? (collapse _) = some r
        rw [collapse_bounds hfirst hbefore hbehind hlast]
        exact rangeText?_append hfirst (isSpace_squeeze _) (isSpace_squeeze _) hlast
  · rintro ⟨keyword, counter, link, bounds, hwords, hkeyword, hcounter, hlink, hr⟩
    obtain ⟨before, behind, hfirst, hbefore, hbehind, hlast, hbounds⟩ :=
      eq_append_of_rangeText? hr
    -- a range has digits, so the bounds are not empty
    have hne : bounds ≠ [] := by
      rintro rfl
      exact hfirst.isWord.1 (List.append_eq_nil_iff.mp hbounds.symm).1
    obtain ⟨next, more, rfl⟩ := List.exists_cons_of_ne_nil hne
    have hheader : collapse header = keyword ++ ([' '] ++ (counter ++ ([' '] ++ (link ++ ([' '] ++
        (r.first ++ (before ++ (dots r.inclusive ++ (behind ++ r.last))))))))) := by
      rw [← hbounds, collapse, hwords]
      simp only [List.intercalate_cons_cons, List.append_assoc]
    have hblank : ∀ space, IsSpace space → ∀ c ∈ space, isBlank c = true := by
      rintro space (rfl | rfl)
      · simp
      · exact isGap_space.2
    rw [hheader]
    exact .range hkeyword isGap_space hcounter isGap_space hlink isGap_space hfirst
      (hblank before hbefore) (hblank behind hbehind) hlast

end Script

end GemGrid
