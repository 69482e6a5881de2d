import GemGrid.Proofs.Script.Comments
import GemGrid.Proofs.Script.Headers

/-!
# The tokens of a line

What the tokens of a line of code are, said without the functions that find them.

* A line falls apart at its braces, and each brace is a token (`LineKinds`).
* Of a text between braces the blanks at the ends are left out; blanks alone are no token
  (`TextKinds`).
* What remains is one token, but the word `else` is a token of its own, also where an `if` follows it
  (`PieceKinds`, `ElseIf`).

These rules give the tokens of every line, and no others: `lineKinds_iff`.  The proof follows the
rules.  Where a text has no brace it is one part of the line (`linePieces_of_noBrace`), and a brace
ends the text before it (`linePieces_append`).

With the code of a whole script, `tokens_of_uncommented` says where the tokens of the script come
from.
-/

namespace GemGrid

open Text

namespace Token

/-! ## An `else` in front of an `if` -/

/-- A text that starts with `else` and `if`, with or without blanks between them, and the trimmed
text that the `if` starts. -/
inductive ElseIf : List Char → List Char → Prop
  | intro {word gap keyword tail : List Char} : sameWord "else" word = true →
      (∀ c ∈ gap, isBlank c = true) → sameWord "if" keyword = true →
      (∀ c ∈ tail.head?, isNameChar c = false) →
      ElseIf (word ++ (gap ++ (keyword ++ tail))) (trim (keyword ++ tail))

theorem atBoundary_eq_true_iff {cs : List Char} :
    atBoundary cs = true ↔ ∀ c ∈ cs.head?, isNameChar c = false := by
  cases cs <;> simp [atBoundary]

/-- No blank has a lower-case form of its own. -/
theorem toLower_of_isBlank {c : Char} (h : isBlank c = true) : c.toLower = c := by
  have hrange : ¬ (65 ≤ c.toNat ∧ c.toNat ≤ 90) := by
    simp only [isBlank, Bool.or_eq_true, Bool.and_eq_true, decide_eq_true_eq, beq_iff_eq] at h
    omega
  unfold Char.toLower
  exact dif_neg hrange

/-- A text that starts with the word `if` starts with no blank and no `e`. -/
theorem head?_of_if {keyword : List Char} (h : sameWord "if" keyword = true) (tail : List Char) :
    ∃ c rest, keyword ++ tail = c :: rest ∧ isBlank c = false ∧ c.toLower = 'i' := by
  have hletters := eq_of_beq h
  cases keyword with
  | nil => cases hletters
  | cons c keyword =>
      have hc : c.toLower = 'i' := (List.cons.inj hletters).1
      refine ⟨c, keyword ++ tail, rfl, ?_, hc⟩
      rw [Bool.eq_false_iff]
      intro hblank
      rw [toLower_of_isBlank hblank] at hc
      rw [hc] at hblank
      exact absurd hblank (by decide)

theorem elseIf?_eq_some_iff {cs rest : List Char} : elseIf? cs = some rest ↔ ElseIf cs rest := by
  constructor
  · intro h
    obtain ⟨behind, hafter, hrest⟩ := Option.bind_eq_some_iff.mp h
    obtain ⟨tail, htail, hboundary⟩ := Option.bind_eq_some_iff.mp hrest
    -- word, blanks and keyword are cut off one after the other, as the reader does
    obtain ⟨word, rfl, helse⟩ := Script.afterWord?_eq_some_iff.mp hafter
    obtain ⟨keyword, hkeyword, hif⟩ := Script.afterWord?_eq_some_iff.mp htail
    obtain ⟨gap, more, rfl, hgap, hmore⟩ := Script.exists_split behind
    split at hboundary
    · next hend =>
      cases hboundary
      rw [Script.trimStart_append_of_blank hgap, hmore] at hkeyword
      rw [Script.trimStart_append_of_blank hgap, hmore, hkeyword]
      exact .intro helse hgap hif (atBoundary_eq_true_iff.mp hend)
    · cases hboundary
  · intro h
    obtain @⟨word, gap, keyword, tail, helse, hgap, hif, hend⟩ := h
    obtain ⟨c, more, hstart, hblank, -⟩ := head?_of_if hif tail
    have hbehind : trimStart (gap ++ (keyword ++ tail)) = keyword ++ tail := by
      rw [Script.trimStart_append_of_blank hgap, hstart, trimStart_cons_of_not_blank _ hblank]
    have hafter : afterWord? "else" (word ++ (gap ++ (keyword ++ tail))) =
        some (gap ++ (keyword ++ tail)) :=
      Script.afterWord?_eq_some_iff.mpr ⟨word, rfl, helse⟩
    have htail : afterWord? "if" (keyword ++ tail) = some tail :=
      Script.afterWord?_eq_some_iff.mpr ⟨keyword, rfl, hif⟩
    simp only [elseIf?, hafter, hbehind, htail, atBoundary_eq_true_iff.mpr hend,
      Option.bind_eq_bind, Option.bind_some, if_true]

/-- The word `else` alone has no `if` behind it. -/
theorem ElseIf.not_sameWord {piece rest : List Char} (h : ElseIf piece rest) :
    sameWord "else" piece = false := by
  obtain @⟨word, gap, keyword, tail, helse, _, hif, _⟩ := h
  rw [Bool.eq_false_iff]
  intro hword
  -- the piece would be as long as its own start, though the keyword follows
  have hlength : (word ++ (gap ++ (keyword ++ tail))).length = word.length := by
    have hwhole := congrArg List.length (eq_of_beq hword)
    have hstart := congrArg List.length (eq_of_beq helse)
    rw [List.length_map] at hwhole hstart
    rw [hwhole, hstart]
  have hkeyword : keyword.length = 2 := by
    have hletters := congrArg List.length (eq_of_beq hif)
    rwa [List.length_map] at hletters
  simp only [List.length_append] at hlength
  omega

/-! ## The rules -/

/-- The kinds of token that a trimmed text without braces stands for. -/
inductive PieceKinds : List Char → List TokenKind → Prop
  | otherwise {piece : List Char} : sameWord "else" piece = true →
      PieceKinds piece [.otherwise]
  | elseIf {piece rest : List Char} : ElseIf piece rest →
      PieceKinds piece [.otherwise, .text (String.ofList rest)]
  | text {piece : List Char} : sameWord "else" piece = false → (∀ rest, ¬ ElseIf piece rest) →
      PieceKinds piece [.text (String.ofList piece)]

/-- The kinds of token that a text without braces stands for. -/
inductive TextKinds : List Char → List TokenKind → Prop
  | blank {cs : List Char} : (∀ c ∈ cs, isBlank c = true) → TextKinds cs []
  | piece {lead piece trail : List Char} {kinds : List TokenKind} :
      (∀ c ∈ lead, isBlank c = true) → Trimmed piece → (∀ c ∈ trail, isBlank c = true) →
      PieceKinds piece kinds → TextKinds (lead ++ (piece ++ trail)) kinds

/-- No brace stands in a text. -/
abbrev NoBrace (cs : List Char) : Prop :=
  ∀ c ∈ cs, ¬ (c = '\x7b' ∨ c = '\x7d')

/-- The kinds of token of a line of code. -/
inductive LineKinds : List Char → List TokenKind → Prop
  | last {cs : List Char} {kinds : List TokenKind} : NoBrace cs → TextKinds cs kinds →
      LineKinds cs kinds
  | left {cs rest : List Char} {kinds more : List TokenKind} : NoBrace cs → TextKinds cs kinds →
      LineKinds rest more → LineKinds (cs ++ '\x7b' :: rest) (kinds ++ .lbrace :: more)
  | right {cs rest : List Char} {kinds more : List TokenKind} : NoBrace cs → TextKinds cs kinds →
      LineKinds rest more → LineKinds (cs ++ '\x7d' :: rest) (kinds ++ .rbrace :: more)

/-- The tokens of numbered lines of code. -/
inductive Tokenized : List (Nat × List Char) → List Token → Prop
  | nil : Tokenized [] []
  | cons {n : Nat} {code : List Char} {kinds : List TokenKind} {lines : List (Nat × List Char)}
      {tokens : List Token} : LineKinds code kinds → Tokenized lines tokens →
      Tokenized ((n, code) :: lines) (kinds.map (fun kind => { kind, line := n }) ++ tokens)

/-! ## Pieces -/

theorem ne_brace_of_forall {cs : List Char} (h : NoBrace cs) :
    cs ≠ ['\x7b'] ∧ cs ≠ ['\x7d'] := by
  constructor
  · rintro rfl
    exact h '\x7b' (List.mem_singleton_self _) (.inl rfl)
  · rintro rfl
    exact h '\x7d' (List.mem_singleton_self _) (.inr rfl)

/-- A text without braces is an `else`, an `else` with an `if` behind it, or one token. -/
theorem kindsOf_of_noBrace {cs : List Char} (hbrace : NoBrace cs) :
    kindsOf cs = if sameWord "else" cs then [.otherwise] else
      match elseIf? cs with
      | some rest => [.otherwise, .text (String.ofList rest)]
      | none => [.text (String.ofList cs)] := by
  obtain ⟨hleft, hright⟩ := ne_brace_of_forall hbrace
  exact (if_neg hleft).trans (if_neg hright)

theorem kindsOf_text {cs : List Char} (hbrace : NoBrace cs) (helse : sameWord "else" cs = false)
    (helseIf : elseIf? cs = none) : kindsOf cs = [.text (String.ofList cs)] := by
  rw [kindsOf_of_noBrace hbrace, if_neg (Bool.eq_false_iff.mp helse), helseIf]

theorem pieceKinds_iff {piece : List Char} {kinds : List TokenKind} (hbrace : NoBrace piece) :
    PieceKinds piece kinds ↔ kinds = kindsOf piece := by
  rw [kindsOf_of_noBrace hbrace]
  constructor
  · -- the three rules exclude each other, since no piece is both `else` and `else if`
    intro h
    cases h with
    | otherwise helse => rw [if_pos helse]
    | elseIf helseIf =>
        rw [if_neg (Bool.eq_false_iff.mp helseIf.not_sameWord), elseIf?_eq_some_iff.mpr helseIf]
    | text helse hnone =>
        have hno : elseIf? piece = none := by
          rw [Option.eq_none_iff_forall_ne_some]
          exact fun rest hrest => hnone rest (elseIf?_eq_some_iff.mp hrest)
        rw [if_neg (Bool.eq_false_iff.mp helse), hno]
  · rintro rfl
    by_cases helse : sameWord "else" piece = true
    · rw [if_pos helse]
      exact .otherwise helse
    · rw [if_neg helse]
      cases hrest : elseIf? piece with
      | some rest => exact .elseIf (elseIf?_eq_some_iff.mp hrest)
      | none =>
          refine .text (Bool.eq_false_iff.mpr helse) fun rest helseIf => ?_
          rw [elseIf?_eq_some_iff.mpr helseIf] at hrest
          cases hrest

/-! ## Texts between braces -/

theorem trimEnd_append_of_blank {cs trail : List Char} (h : ∀ c ∈ trail, isBlank c = true) :
    trimEnd (cs ++ trail) = trimEnd cs := by
  have hreverse : ∀ c ∈ trail.reverse, isBlank c = true := fun c hc => h c (List.mem_reverse.mp hc)
  rw [trimEnd, List.reverse_append, List.dropWhile_append_of_pos hreverse, ← trimEnd]

theorem trim_of_blanks {lead piece trail : List Char} (hlead : ∀ c ∈ lead, isBlank c = true)
    (hpiece : Trimmed piece) (htrail : ∀ c ∈ trail, isBlank c = true) :
    trim (lead ++ (piece ++ trail)) = piece := by
  rw [trim, Script.trimStart_append_of_blank hlead, hpiece.trimStart_eq,
    trimEnd_append_of_blank htrail, hpiece.trimEnd_eq]

/-- Only blanks are trimmed. -/
theorem exists_trim (cs : List Char) : ∃ lead trail, cs = lead ++ (trim cs ++ trail) ∧
    (∀ c ∈ lead, isBlank c = true) ∧ ∀ c ∈ trail, isBlank c = true := by
  let behind := (trimStart cs).reverse
  have hback : trimStart cs = trim cs ++ (behind.takeWhile isBlank).reverse := by
    have hsplit : behind.takeWhile isBlank ++ behind.dropWhile isBlank = behind :=
      List.takeWhile_append_dropWhile
    calc trimStart cs = behind.reverse := (List.reverse_reverse _).symm
      _ = (behind.dropWhile isBlank).reverse ++ (behind.takeWhile isBlank).reverse := by
        rw [← List.reverse_append, hsplit]
  refine ⟨cs.takeWhile isBlank, (behind.takeWhile isBlank).reverse, ?_,
    fun _ => List.mem_takeWhile_imp, fun c hc => List.mem_takeWhile_imp (List.mem_reverse.mp hc)⟩
  rw [← hback]
  exact List.takeWhile_append_dropWhile.symm

theorem exists_textKinds {cs : List Char} (hbrace : NoBrace cs) : ∃ kinds, TextKinds cs kinds := by
  obtain ⟨lead, trail, hsplit, hlead, htrail⟩ := exists_trim cs
  by_cases hempty : trim cs = []
  · rw [hempty, List.nil_append] at hsplit
    rw [hsplit]
    exact ⟨[], .blank (List.forall_mem_append.mpr ⟨hlead, htrail⟩)⟩
  · have hinside : NoBrace (trim cs) := fun c hc => hbrace c ((infix_trim cs).subset hc)
    have hkinds := (pieceKinds_iff hinside).mpr rfl
    have htext := TextKinds.piece hlead (trimmed_trim hempty) htrail hkinds
    rw [← hsplit] at htext
    exact ⟨_, htext⟩

/-! ## Parts of a line -/

theorem braceParts_append {cs : List Char} (h : NoBrace cs) {c : Char}
    (hc : c = '\x7b' ∨ c = '\x7d') (rest : List Char) :
    braceParts (cs ++ c :: rest) = cs :: [c] :: braceParts rest := by
  induction cs with
  | nil => rw [List.nil_append, braceParts, if_pos hc]
  | cons d cs ih =>
      obtain ⟨hd, hcs⟩ := List.forall_mem_cons.mp h
      rw [List.cons_append, braceParts, if_neg hd, ih hcs]

theorem braceParts_eq_self {cs : List Char} (h : NoBrace cs) : braceParts cs = [cs] := by
  induction cs with
  | nil => rfl
  | cons c cs ih =>
      obtain ⟨hc, hcs⟩ := List.forall_mem_cons.mp h
      rw [braceParts, if_neg hc, ih hcs]

/-- A text without braces is one part of the line, if it holds anything but blanks. -/
theorem linePieces_of_noBrace {cs : List Char} (h : NoBrace cs) :
    linePieces cs = [trim cs].filter fun part => !part.isEmpty := by
  rw [linePieces, braceParts_eq_self h, List.map_singleton]

theorem linePieces_eq_self {cs : List Char} (hbrace : NoBrace cs) (htrimmed : Trimmed cs) :
    linePieces cs = [cs] := by
  simp [linePieces_of_noBrace hbrace, htrimmed.trim_eq, htrimmed.nonempty]

/-- A brace ends the text before it and is a part of its own. -/
theorem linePieces_append {cs : List Char} (h : NoBrace cs) {c : Char}
    (hc : c = '\x7b' ∨ c = '\x7d') (rest : List Char) :
    linePieces (cs ++ c :: rest) = linePieces cs ++ [c] :: linePieces rest := by
  have hbrace : trim [c] = [c] := by
    rcases hc with rfl | rfl <;> decide
  let parts := (braceParts rest).map trim
  calc linePieces (cs ++ c :: rest)
      = ([trim cs] ++ [c] :: parts).filter (fun part => !part.isEmpty) := by
        rw [linePieces, braceParts_append h hc, List.map_cons, List.map_cons, hbrace]
        rfl
    _ = linePieces cs ++ [c] :: linePieces rest := by
        rw [List.filter_append, ← linePieces_of_noBrace h, List.filter_cons_of_pos (by simp)]
        rfl

/-- A trimmed text without braces that is no form of `else` is one token. -/
theorem ofCode_text {cs : List Char} (hbrace : NoBrace cs) (htrimmed : Trimmed cs)
    (helse : sameWord "else" cs = false) (helseIf : elseIf? cs = none) (n : Nat) :
    ofCode n cs = [⟨.text (String.ofList cs), n⟩] := by
  rw [ofCode, linePieces_eq_self hbrace htrimmed, List.flatMap_singleton,
    kindsOf_text hbrace helse helseIf, List.map_singleton]

/-! ## The rules give the tokens -/

theorem textKinds_eq {cs : List Char} {kinds : List TokenKind} (h : TextKinds cs kinds)
    (hbrace : NoBrace cs) : kinds = (linePieces cs).flatMap kindsOf := by
  rw [linePieces_of_noBrace hbrace]
  cases h with
  | blank hblank =>
      rw [Script.trim_eq_nil hblank]
      rfl
  | @piece lead piece trail _ hlead hpiece htrail hkinds =>
      have hinside : NoBrace piece := fun c hc =>
        hbrace c (List.mem_append_right _ (List.mem_append_left _ hc))
      have hfull : [piece].filter (fun part => !part.isEmpty) = [piece] :=
        List.filter_cons_of_pos (by simpa using hpiece.nonempty)
      rw [trim_of_blanks hlead hpiece htrail, hfull, List.flatMap_singleton]
      exact (pieceKinds_iff hinside).mp hkinds

theorem lineKinds_eq {code : List Char} {kinds : List TokenKind} (h : LineKinds code kinds) :
    kinds = (linePieces code).flatMap kindsOf := by
  induction h with
  | last hbrace htext => exact textKinds_eq htext hbrace
  | left hbrace htext _ ih =>
      rw [linePieces_append hbrace (.inl rfl), List.flatMap_append, List.flatMap_cons, ← ih,
        ← textKinds_eq htext hbrace]
      rfl
  | right hbrace htext _ ih =>
      rw [linePieces_append hbrace (.inr rfl), List.flatMap_append, List.flatMap_cons, ← ih,
        ← textKinds_eq htext hbrace]
      rfl

/-- A line has no brace, or a first one. -/
theorem noBrace_or_exists (code : List Char) : NoBrace code ∨ ∃ cs c rest,
    code = cs ++ c :: rest ∧ NoBrace cs ∧ (c = '\x7b' ∨ c = '\x7d') := by
  induction code with
  | nil => exact .inl (List.forall_mem_nil _)
  | cons c code ih =>
      by_cases hc : c = '\x7b' ∨ c = '\x7d'
      · exact .inr ⟨[], c, code, rfl, List.forall_mem_nil _, hc⟩
      · rcases ih with hbrace | ⟨cs, d, rest, rfl, hbrace, hd⟩
        · exact .inl (List.forall_mem_cons.mpr ⟨hc, hbrace⟩)
        · exact .inr ⟨c :: cs, d, rest, rfl, List.forall_mem_cons.mpr ⟨hc, hbrace⟩, hd⟩

/-- Every line can be read by the rules.  The induction is on the length of the line, as the rules
take the text in front of the first brace at once. -/
theorem exists_lineKinds (n : Nat) : ∀ code : List Char, code.length ≤ n →
    ∃ kinds, LineKinds code kinds := by
  induction n with
  | zero =>
      intro code hlength
      obtain rfl := List.length_eq_zero_iff.mp (Nat.le_zero.mp hlength)
      exact ⟨[], .last (List.forall_mem_nil _) (.blank (List.forall_mem_nil _))⟩
  | succ n ih =>
      intro code hlength
      -- the line is cut at its first brace, and what follows is shorter
      rcases noBrace_or_exists code with hbrace | ⟨cs, c, rest, rfl, hbrace, hc⟩
      · obtain ⟨kinds, htext⟩ := exists_textKinds hbrace
        exact ⟨kinds, .last hbrace htext⟩
      · obtain ⟨kinds, htext⟩ := exists_textKinds hbrace
        obtain ⟨more, hmore⟩ := ih rest (by
          rw [List.length_append, List.length_cons] at hlength
          omega)
        rcases hc with rfl | rfl
        · exact ⟨_, .left hbrace htext hmore⟩
        · exact ⟨_, .right hbrace htext hmore⟩

/-- **The tokens of a line are what the rules say.** -/
theorem lineKinds_iff {code : List Char} {kinds : List TokenKind} :
    LineKinds code kinds ↔ kinds = (linePieces code).flatMap kindsOf := by
  constructor
  · exact lineKinds_eq
  · rintro rfl
    obtain ⟨kinds, hkinds⟩ := exists_lineKinds code.length code (Nat.le_refl _)
    rwa [← lineKinds_eq hkinds]

theorem tokenized_iff {lines : List (Nat × List Char)} {tokens : List Token} :
    Tokenized lines tokens ↔ tokens = lines.flatMap fun (n, code) => ofCode n code := by
  constructor
  · intro h
    induction h with
    | nil => rfl
    | @cons n code kinds _ _ hkinds _ ih =>
        have hline : kinds.map (fun kind => { kind, line := n }) = ofCode n code := by
          rw [lineKinds_iff.mp hkinds, ofCode]
        rw [List.flatMap_cons, ← ih, hline]
  · rintro rfl
    induction lines with
    | nil => exact .nil
    | cons line lines ih => exact .cons (lineKinds_iff.mpr rfl) ih

end Token

/-! ## The whole script -/

open Script

/-- **Comments can be cut out line by line.**  The scan of the whole text leaves what the rules for
comments leave.  It has as many lines as the source, the tokens of its lines by the rules for tokens
are exactly the tokens of the script, and no comment starts in it.

Lines are counted in words of 32 bits, which the text must not be too long for. -/
theorem tokens_of_uncommented (text : String) :
    let source := Source.ofString text
    let code : Source := ⟨strip .code source.chars⟩
    (∀ cs, Uncommented source.chars cs ↔ cs = code.chars) ∧
    code.lineCount = source.lineCount ∧
    (∀ tokens, Token.Tokenized code.numbered tokens ↔ tokens = Token.ofSource source) ∧
    ¬ ['/', '/'] <:+: code.chars ∧ ¬ ['/', '*'] <:+: code.chars := by
  intro source code
  have hcode : NoComment code.chars := noComment_strip .code source.chars
  refine ⟨fun cs => uncommented_iff, source.lineCount_code, fun tokens => ?_, hcode.line,
    hcode.block⟩
  rw [Token.tokenized_iff, Token.ofSource_eq source]
  rfl

/-- Signs that overlap, comments that touch, and a block comment over the end of a line. -/
theorem tokens_of_uncommented_overlapping_signs :
    let source := Source.ofString "a()/*/b*/c\x7b//*d\r\n/**//e \x7d elSE\tIf x/*\n\x7b*/ \x7b /*//*/ else"
    let code : Source := ⟨"a()c\x7b\n/e \x7d elSE\tIf x\n \x7b  else".toList⟩
    Uncommented source.chars code.chars ∧ code.lineCount = 3 ∧ source.lineCount = 3 ∧
    Token.Tokenized code.numbered [⟨.text "a()c", 1⟩, ⟨.lbrace, 1⟩, ⟨.text "/e", 2⟩,
      ⟨.rbrace, 2⟩, ⟨.otherwise, 2⟩, ⟨.text "If x", 2⟩, ⟨.lbrace, 3⟩, ⟨.otherwise, 3⟩] := by
  intro source code
  have hstrip : strip .code source.chars = code.chars := by decide +kernel
  obtain ⟨huncommented, hcount, htokens, _, _⟩ := tokens_of_uncommented
    "a()/*/b*/c\x7b//*d\r\n/**//e \x7d elSE\tIf x/*\n\x7b*/ \x7b /*//*/ else"
  rw [hstrip] at hcount htokens
  refine ⟨(huncommented _).mpr hstrip.symm, by decide +kernel, ?_, (htokens _).mpr ?_⟩
  · rw [← hcount]
    decide +kernel
  · decide +kernel

end GemGrid
