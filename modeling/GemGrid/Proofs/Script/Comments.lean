import GemGrid.Proofs.Script.CommentSearch
import GemGrid.Proofs.Source
import GemGrid.Script.Token
import Mathlib.Data.List.Infix

/-!
# Comments of a whole text

A script is read line by line, and its comments are cut out of one line at a time; all that is
known of the lines before is whether a block comment is open.  Here the comments are cut out of the
text as a whole, and the result is the same.

* `strip` scans a text once from left to right and is in one of three modes.
* `Uncommented` says what a comment is without a scan: where it starts, and that it ends at the
  next line feed or behind the next `*/`.  The scan follows these rules (`uncommented_iff`).
* `strip_append` is one line, which the search for its comments reads as the scan does
  (`stripLine_eq_scanLine`).  No comment sign goes over the end of a line and a line comment is over
  there, so what follows the line is scanned as if it stood alone, in the mode that the line leaves
  behind.
* `pieces_strip` puts the lines together: the lines of the code are the codes of the lines.  So
  every token has the number of a line of the source (`Token.line_of_mem_ofSource`).  It is a 32-bit
  word if there are not too many lines (`Token.line_le_max32`); what is said about the lines of
  tokens and statements is meant for such scripts.

What is kept of a text never forms a new comment (`noComment_strip`): a slash that is kept is
followed by something that is no comment sign, and that is kept as well.
-/

namespace GemGrid.Script

open Text

/-! ## The signs of comments -/

theorem pair_infix_cons_iff {a b c : Char} {cs : List Char} :
    [a, b] <:+: c :: cs ↔ (c = a ∧ cs.head? = some b) ∨ [a, b] <:+: cs := by
  rw [List.infix_cons_iff, pair_prefix_cons_iff]

/-- Two characters that open a comment. -/
def Opener (c d : Char) : Prop :=
  c = '/' ∧ (d = '/' ∨ d = '*')

/-- No comment starts anywhere in a text. -/
structure NoComment (cs : List Char) : Prop where
  line : ¬ ['/', '/'] <:+: cs
  block : ¬ ['/', '*'] <:+: cs

theorem noComment_nil : NoComment [] :=
  ⟨by simp, by simp⟩

theorem noComment_cons {c : Char} {cs : List Char} :
    NoComment (c :: cs) ↔ (∀ d ∈ cs.head?, ¬ Opener c d) ∧ NoComment cs := by
  constructor
  · rintro ⟨hline, hblock⟩
    -- a sign starts at the head, or it lies in the rest
    rw [pair_infix_cons_iff, not_or] at hline hblock
    refine ⟨?_, hline.2, hblock.2⟩
    rintro d hd ⟨rfl, rfl | rfl⟩
    · exact hline.1 ⟨rfl, hd⟩
    · exact hblock.1 ⟨rfl, hd⟩
  · rintro ⟨hhead, hline, hblock⟩
    constructor
    · rw [pair_infix_cons_iff, not_or]
      exact ⟨fun ⟨hc, hd⟩ => hhead _ hd ⟨hc, .inl rfl⟩, hline⟩
    · rw [pair_infix_cons_iff, not_or]
      exact ⟨fun ⟨hc, hd⟩ => hhead _ hd ⟨hc, .inr rfl⟩, hblock⟩

theorem not_opener_of_ne {c : Char} (h : c ≠ '/') (d : Char) : ¬ Opener c d :=
  fun hopener => h hopener.1

theorem noComment_of_not_mem {cs : List Char} (h : '/' ∉ cs) : NoComment cs :=
  ⟨fun hsign => h (hsign.subset (by simp)), fun hsign => h (hsign.subset (by simp))⟩

theorem NoComment.part {cs part : List Char} (h : NoComment cs) (hpart : part <:+: cs) :
    NoComment part :=
  ⟨fun hsign => h.line (hsign.trans hpart), fun hsign => h.block (hsign.trans hpart)⟩

/-! ## One scan of the whole text -/

/-- Where a scan stands: in the code, in a comment to the end of the line, or in a block comment. -/
inductive Mode where
  | code
  | line
  | block
deriving DecidableEq, Repr

/-- The code of a text, scanned from left to right. -/
def strip : Mode → List Char → List Char
  | _, [] => []
  | .code, '/' :: '/' :: cs => strip .line cs
  | .code, '/' :: '*' :: cs => strip .block cs
  | .code, c :: cs => c :: strip .code cs
  | .line, '\n' :: cs => '\n' :: strip .code cs
  | .line, _ :: cs => strip .line cs
  | .block, '*' :: '/' :: cs => strip .code cs
  | .block, '\n' :: cs => '\n' :: strip .block cs
  | .block, _ :: cs => strip .block cs

/-- The line feeds of a text. -/
def breaks (cs : List Char) : List Char :=
  cs.filter (· == '\n')

theorem breaks_cons (c : Char) (cs : List Char) : breaks (c :: cs) = breaks [c] ++ breaks cs :=
  List.filter_append [c] cs

theorem breaks_of_ne {c : Char} (h : c ≠ '\n') : breaks [c] = [] := by
  simp [breaks, h]

@[simp] theorem strip_nil (mode : Mode) : strip mode [] = [] := by
  cases mode <;> rfl

theorem strip_keep {c : Char} {cs : List Char} (h : ∀ d ∈ cs.head?, ¬ Opener c d) :
    strip .code (c :: cs) = c :: strip .code cs := by
  rw [strip]
  · rintro rest rfl rfl
    exact h '/' rfl ⟨rfl, .inl rfl⟩
  · rintro rest rfl rfl
    exact h '*' rfl ⟨rfl, .inr rfl⟩

/-- A line comment ends before the next line feed. -/
theorem strip_line_append {body : List Char} (hbody : '\n' ∉ body) {rest : List Char}
    (hrest : ∀ c ∈ rest.head?, c = '\n') : strip .line (body ++ rest) = strip .code rest := by
  induction body with
  | nil =>
      cases rest with
      | nil => rfl
      | cons c rest =>
          obtain rfl := hrest c rfl
          rfl
  | cons c body ih =>
      have hc : c ≠ '\n' := fun heq => hbody (heq ▸ List.mem_cons_self ..)
      rw [List.cons_append, strip, ih (List.not_mem_of_not_mem_cons hbody)]
      exact hc

/-- Of a character inside a block comment only a line feed is kept. -/
theorem strip_block_cons {c : Char} {cs : List Char} (h : c = '*' → cs.head? ≠ some '/') :
    strip .block (c :: cs) = breaks [c] ++ strip .block cs := by
  by_cases hbreak : c = '\n'
  · subst hbreak
    rfl
  · rw [breaks_of_ne hbreak, List.nil_append, strip]
    · rintro rest rfl rfl
      exact h rfl rfl
    · exact hbreak

/-- A block comment ends behind the next `*/`. -/
theorem strip_block_append {body : List Char} (hbody : ¬ ['*', '/'] <:+: body ++ ['*'])
    (rest : List Char) :
    strip .block (body ++ '*' :: '/' :: rest) = breaks body ++ strip .code rest := by
  induction body with
  | nil => rfl
  | cons c body ih =>
      rw [List.cons_append, pair_infix_cons_iff, not_or] at hbody
      -- the body does not close early, so its stars are no signs
      have hhead : c = '*' → (body ++ '*' :: '/' :: rest).head? ≠ some '/' := by
        intro hc hslash
        refine hbody.1 ⟨hc, ?_⟩
        cases body with
        | nil => simp at hslash
        | cons d body => exact hslash
      rw [List.cons_append, strip_block_cons hhead, ih hbody.2, breaks_cons c body,
        List.append_assoc]

/-- A block comment without an end takes the rest of the text. -/
theorem strip_block_open {body : List Char} (hbody : ¬ ['*', '/'] <:+: body) :
    strip .block body = breaks body := by
  induction body with
  | nil => rfl
  | cons c body ih =>
      rw [pair_infix_cons_iff, not_or] at hbody
      have hhead : c = '*' → body.head? ≠ some '/' := fun hc hslash => hbody.1 ⟨hc, hslash⟩
      rw [strip_block_cons hhead, ih hbody.2, breaks_cons c body]

/-! ## What a comment is -/

/-- The code of a text by the rules for comments. -/
inductive Uncommented : List Char → List Char → Prop
  | nil : Uncommented [] []
  | keep {c : Char} {cs code : List Char} : (∀ d ∈ cs.head?, ¬ Opener c d) →
      Uncommented cs code → Uncommented (c :: cs) (c :: code)
  | line {body rest code : List Char} : '\n' ∉ body → (∀ c ∈ rest.head?, c = '\n') →
      Uncommented rest code → Uncommented ('/' :: '/' :: (body ++ rest)) code
  | block {body rest code : List Char} : ¬ ['*', '/'] <:+: body ++ ['*'] →
      Uncommented rest code →
      Uncommented ('/' :: '*' :: (body ++ '*' :: '/' :: rest)) (breaks body ++ code)
  | openBlock {body : List Char} : ¬ ['*', '/'] <:+: body →
      Uncommented ('/' :: '*' :: body) (breaks body)

/-- The sign that brings a scan into a mode. -/
def Mode.sign : Mode → List Char
  | .code => []
  | .line => ['/', '/']
  | .block => ['/', '*']

/-- One more character inside a line comment. -/
theorem Uncommented.line_cons {c : Char} {cs code : List Char} (hc : c ≠ '\n')
    (h : Uncommented ('/' :: '/' :: cs) code) : Uncommented ('/' :: '/' :: c :: cs) code := by
  cases h with
  | keep hhead _ => exact absurd ⟨rfl, .inl rfl⟩ (hhead '/' rfl)
  | @line body rest _ hbody hrest h =>
      rw [← List.cons_append]
      exact .line (by simp [hbody, hc.symm]) hrest h

/-- One more character inside a block comment. -/
theorem Uncommented.block_cons {c : Char} {cs code : List Char}
    (hc : c = '*' → cs.head? ≠ some '/') (h : Uncommented ('/' :: '*' :: cs) code) :
    Uncommented ('/' :: '*' :: c :: cs) (breaks [c] ++ code) := by
  cases h with
  | keep hhead _ => exact absurd ⟨rfl, .inr rfl⟩ (hhead '*' rfl)
  | @block body rest code hbody h =>
      -- the character joins the body of the comment
      rw [← List.append_assoc, ← breaks_cons, ← List.cons_append]
      refine .block ?_ h
      rw [List.cons_append, pair_infix_cons_iff, not_or]
      refine ⟨fun ⟨hstar, hslash⟩ => hc hstar ?_, hbody⟩
      cases body with
      | nil => simp at hslash
      | cons d body => exact hslash
  | openBlock hbody =>
      rw [← breaks_cons]
      refine .openBlock ?_
      rw [pair_infix_cons_iff, not_or]
      exact ⟨fun ⟨hstar, hslash⟩ => hc hstar hslash, hbody⟩

/-- A scan that is in a mode goes on as if it had just read the sign of that mode. -/
theorem uncommented_strip (mode : Mode) (cs : List Char) :
    Uncommented (mode.sign ++ cs) (strip mode cs) := by
  fun_induction strip mode cs with
  | case1 mode =>
      cases mode with
      | code => exact .nil
      | line => exact @Uncommented.line [] [] [] (by simp) (by simp) .nil
      | block => exact .openBlock (by simp)
  | case2 cs ih => exact ih
  | case3 cs ih => exact ih
  | case4 c cs hline hblock ih =>
      refine .keep ?_ ih
      rintro d hd ⟨rfl, rfl | rfl⟩
      · obtain ⟨rest, rfl⟩ := List.head?_eq_some_iff.mp hd
        exact hline rest rfl rfl
      · obtain ⟨rest, rfl⟩ := List.head?_eq_some_iff.mp hd
        exact hblock rest rfl rfl
  | case5 cs ih =>
      -- the line comment ends in front of the break, which is kept
      have hbreak : ∀ d ∈ cs.head?, ¬ Opener '\n' d := fun d _ => not_opener_of_ne (by decide) d
      exact @Uncommented.line [] _ _ (by simp) (by simp) (.keep hbreak ih)
  | case6 c cs hc ih => exact Uncommented.line_cons hc ih
  | case7 cs ih => exact @Uncommented.block [] _ _ (by simp [pair_infix_cons_iff]) ih
  | case8 cs ih => exact Uncommented.block_cons (fun heq => absurd heq (by decide)) ih
  | case9 c cs hend hc ih =>
      -- the star is no end of the block, as no slash follows it
      have hhead : c = '*' → cs.head? ≠ some '/' := by
        intro hstar hslash
        obtain ⟨rest, rfl⟩ := List.head?_eq_some_iff.mp hslash
        exact hend rest hstar rfl
      have hmore := Uncommented.block_cons hhead ih
      rwa [breaks_of_ne hc] at hmore

/-- The rules for comments leave exactly what the scan leaves. -/
theorem uncommented_iff {cs code : List Char} : Uncommented cs code ↔ code = strip .code cs := by
  constructor
  · intro h
    induction h with
    | nil => rfl
    | keep hhead _ ih => rw [strip_keep hhead, ← ih]
    | line hbody hrest _ ih => rw [strip, strip_line_append hbody hrest, ← ih]
    | block hbody _ ih => rw [strip, strip_block_append hbody, ← ih]
    | openBlock hbody => rw [strip, strip_block_open hbody]
  · rintro rfl
    exact uncommented_strip .code cs

/-- Signs that overlap are read from the left. -/
example : Uncommented "a/*/b*/c//*d\n/**//e".toList "ac\n/e".toList :=
  uncommented_iff.mpr (by decide)

/-! ## What is left holds no comment -/

theorem strip_subset (mode : Mode) (cs : List Char) : strip mode cs ⊆ cs := by
  fun_induction strip mode cs with
  | case1 mode => exact List.Subset.refl _
  | case2 cs ih => exact fun c hc => .tail _ (.tail _ (ih hc))
  | case3 cs ih => exact fun c hc => .tail _ (.tail _ (ih hc))
  | case4 c cs _ _ ih => exact List.cons_subset_cons c ih
  | case5 cs ih => exact List.cons_subset_cons _ ih
  | case6 c cs _ ih => exact fun d hd => .tail _ (ih hd)
  | case7 cs ih => exact fun c hc => .tail _ (.tail _ (ih hc))
  | case8 cs ih => exact List.cons_subset_cons _ ih
  | case9 c cs _ _ ih => exact fun d hd => .tail _ (ih hd)

theorem noComment_strip (mode : Mode) (cs : List Char) : NoComment (strip mode cs) := by
  fun_induction strip mode cs with
  | case1 mode => exact noComment_nil
  | case2 cs ih => exact ih
  | case3 cs ih => exact ih
  | case4 c cs hline hblock ih =>
      refine noComment_cons.mpr ⟨?_, ih⟩
      rintro d hd ⟨rfl, hsign⟩
      -- the next character is no sign of a comment, so it is kept and stands behind the slash
      cases cs with
      | nil => simp at hd
      | cons e rest =>
          have hslash : e ≠ '/' := fun heq => hline rest rfl (by rw [heq])
          have hstar : e ≠ '*' := fun heq => hblock rest rfl (by rw [heq])
          rw [strip_keep fun d _ => not_opener_of_ne hslash d] at hd
          obtain rfl : e = d := Option.some.inj hd
          exact hsign.elim hslash hstar
  | case5 cs ih => exact noComment_cons.mpr ⟨fun d _ => not_opener_of_ne (by decide) d, ih⟩
  | case6 c cs hc ih => exact ih
  | case7 cs ih => exact ih
  | case8 cs ih => exact noComment_cons.mpr ⟨fun d _ => not_opener_of_ne (by decide) d, ih⟩
  | case9 c cs hend hc ih => exact ih

/-! ## One line -/

/-- A line in which no comment starts is all code. -/
theorem stripLine_eq_self {cs : List Char} (h : NoComment cs) :
    stripLine false cs = (cs, false) := by
  have hsigns : ∀ j < cs.length, ¬ ['/', '/'] <+: cs.drop j ∧ ¬ ['/', '*'] <+: cs.drop j :=
    fun j _ => ⟨fun hsign => h.line (hsign.isInfix.trans (List.drop_suffix j cs).isInfix),
      fun hsign => h.block (hsign.isInfix.trans (List.drop_suffix j cs).isInfix)⟩
  rw [stripLine_eq_scanLine, scanLine_take hsigns, List.drop_length, List.take_length,
    scanLine_nil, List.append_nil]

theorem stripLine_subset (inBlock : Bool) (cs : List Char) : (stripLine inBlock cs).1 ⊆ cs := by
  rw [stripLine_eq_scanLine]
  fun_induction scanLine inBlock cs with
  | case1 inBlock => exact List.Subset.refl _
  | case2 cs ih => exact fun c hc => .tail _ (.tail _ (ih hc))
  | case3 c cs _ ih => exact fun d hd => .tail _ (ih hd)
  | case4 cs => exact List.nil_subset _
  | case5 cs ih => exact fun c hc => .tail _ (.tail _ (ih hc))
  | case6 c cs _ _ code stillOpen heq ih =>
      rw [heq] at ih
      exact List.cons_subset_cons c ih

/-- The mode that a line starts in. -/
def Mode.entering (inBlock : Bool) : Mode :=
  if inBlock then .block else .code

/-- A line feed is kept, and changes the mode of no line. -/
theorem strip_entering_break (inBlock : Bool) (rest : List Char) :
    strip (.entering inBlock) ('\n' :: rest) = '\n' :: strip (.entering inBlock) rest := by
  cases inBlock <;> rfl

/-- A line is scanned as if it stood alone, and what follows it in the mode that it leaves. -/
theorem strip_append {line rest : List Char} (hline : '\n' ∉ line)
    (hrest : ∀ c ∈ rest.head?, c = '\n') (inBlock : Bool) :
    strip (.entering inBlock) (line ++ rest) =
      (stripLine inBlock line).1 ++ strip (.entering (stripLine inBlock line).2) rest := by
  rw [stripLine_eq_scanLine]
  -- both scans read the line from the left, in the same modes
  fun_induction scanLine inBlock line with
  | case1 inBlock => rfl
  | case2 cs ih => exact ih (fun hmem => hline (.tail _ (.tail _ hmem)))
  | case3 c cs hend ih =>
      obtain ⟨hc, hcs⟩ := not_or.mp (mt List.mem_cons.mpr hline)
      have hhead : c = '*' → (cs ++ rest).head? ≠ some '/' := by
        intro hstar hslash
        cases cs with
        | nil => exact absurd (hrest '/' hslash) (by decide)
        | cons d cs =>
            obtain rfl : d = '/' := Option.some.inj hslash
            exact hend cs hstar rfl
      have hskip := strip_block_cons hhead
      rw [breaks_of_ne (Ne.symm hc), List.nil_append] at hskip
      exact hskip.trans (ih hcs)
  | case4 cs => exact strip_line_append (fun hmem => hline (.tail _ (.tail _ hmem))) hrest
  | case5 cs ih => exact ih (fun hmem => hline (.tail _ (.tail _ hmem)))
  | case6 c cs hslash hstar code stillOpen heq ih =>
      have hhead : ∀ d ∈ (cs ++ rest).head?, ¬ Opener c d := by
        rintro d hd ⟨rfl, hsign⟩
        cases cs with
        | nil =>
            obtain rfl := hrest d hd
            exact absurd hsign (by decide)
        | cons e cs =>
            obtain rfl : e = d := Option.some.inj hd
            rcases hsign with rfl | rfl
            · exact hslash cs rfl rfl
            · exact hstar cs rfl rfl
      have hcode := ih (List.not_mem_of_not_mem_cons hline)
      rw [heq] at hcode
      exact (strip_keep hhead).trans (congrArg (c :: ·) hcode)

/-! ## All lines -/

/-- The codes of lines; the first argument says whether a block comment is open. -/
def codeLines : Bool → List (List Char) → List (List Char)
  | _, [] => []
  | inBlock, line :: lines =>
    (stripLine inBlock line).1 :: codeLines (stripLine inBlock line).2 lines

theorem length_codeLines (inBlock : Bool) (lines : List (List Char)) :
    (codeLines inBlock lines).length = lines.length := by
  induction lines generalizing inBlock with
  | nil => rfl
  | cons line lines ih => rw [codeLines, List.length_cons, List.length_cons, ih]

theorem not_mem_codeLines {lines : List (List Char)} (h : ∀ line ∈ lines, '\n' ∉ line)
    (inBlock : Bool) : ∀ code ∈ codeLines inBlock lines, '\n' ∉ code := by
  induction lines generalizing inBlock with
  | nil => simp [codeLines]
  | cons line lines ih =>
      obtain ⟨hline, hlines⟩ := List.forall_mem_cons.mp h
      rw [codeLines]
      refine List.forall_mem_cons.mpr ⟨fun hmem => hline ?_, ih hlines _⟩
      exact stripLine_subset inBlock line hmem

/-- Lines that are joined are scanned one after the other. -/
theorem strip_intercalate {lines : List (List Char)} (h : ∀ line ∈ lines, '\n' ∉ line)
    (inBlock : Bool) : strip (.entering inBlock) (['\n'].intercalate lines) =
      ['\n'].intercalate (codeLines inBlock lines) := by
  induction lines generalizing inBlock with
  | nil => exact strip_nil _
  | cons line lines ih =>
      obtain ⟨hline, hlines⟩ := List.forall_mem_cons.mp h
      cases lines with
      | nil =>
          -- the last line has no break behind it
          have hlast := @strip_append line [] hline (by simp) inBlock
          rw [List.append_nil, strip_nil, List.append_nil] at hlast
          rw [List.intercalate_singleton, hlast, codeLines, codeLines, List.intercalate_singleton]
      | cons next lines =>
          -- whether a block is open goes from line to line
          have hcodes := ih hlines (stripLine inBlock line).2
          have hjoin : ['\n'].intercalate (codeLines inBlock (line :: next :: lines)) =
              (stripLine inBlock line).1 ++ '\n' ::
                ['\n'].intercalate (codeLines (stripLine inBlock line).2 (next :: lines)) := by
            rw [codeLines, codeLines, List.intercalate_cons_cons, List.append_assoc,
              List.singleton_append]
          rw [List.intercalate_cons_cons, List.append_assoc, List.singleton_append,
            strip_append hline (by simp), strip_entering_break, hcodes, hjoin]

/-- The lines of the code are the codes of the lines. -/
theorem pieces_strip (cs : List Char) :
    pieces (· == '\n') (strip .code cs) = codeLines false (pieces (· == '\n') cs) := by
  -- both sides are the lines of one text, as stripping keeps the breaks and adds none
  have hlines : ∀ line ∈ pieces (· == '\n') cs, '\n' ∉ line := by
    intro line hline hmem
    have hbreak := not_isBreak_of_mem_pieces _ cs line hline '\n' hmem
    simp at hbreak
  have hne : codeLines false (pieces (· == '\n') cs) ≠ [] := by
    rw [← List.length_pos_iff, length_codeLines, List.length_pos_iff]
    exact pieces_ne_nil _ cs
  calc pieces (· == '\n') (strip .code cs)
      = pieces (· == '\n') (strip .code (['\n'].intercalate (pieces (· == '\n') cs))) := by
        rw [intercalate_pieces]
    _ = pieces (· == '\n') (['\n'].intercalate (codeLines false (pieces (· == '\n') cs))) :=
        congrArg _ (strip_intercalate hlines false)
    _ = codeLines false (pieces (· == '\n') cs) :=
        pieces_intercalate hne (not_mem_codeLines hlines false)

end GemGrid.Script

namespace GemGrid

open Script

/-- A source without its comments. -/
def Source.code (s : Source) : Source :=
  ⟨strip .code s.chars⟩

theorem Source.lines_code (s : Source) : s.code.lines = codeLines false s.lines :=
  pieces_strip s.chars

theorem Source.lineCount_code (s : Source) : s.code.lineCount = s.lineCount := by
  rw [lineCount, lines_code, length_codeLines, lineCount]

/-- The tokens of lines are those of their codes. -/
theorem Token.ofLines_eq_flatMap (inBlock : Bool) (lines : List (List Char)) (n : Nat) :
    ofLines inBlock ((lines.zipIdx n).map fun (line, k) => (k, line)) =
      (((codeLines inBlock lines).zipIdx n).map fun (line, k) => (k, line)).flatMap
        fun (k, code) => ofCode k code := by
  induction lines generalizing inBlock n with
  | nil => rfl
  | cons line lines ih =>
      change ofCode n (stripLine inBlock line).1 ++ ofLines (stripLine inBlock line).2 _ = _
      rw [ih, codeLines, List.zipIdx_cons, List.map_cons, List.flatMap_cons]

theorem Token.ofSource_eq (s : Source) :
    ofSource s = s.code.numbered.flatMap fun (n, code) => ofCode n code := by
  rw [ofSource, Source.numbered, Source.numbered, Source.lines_code, ofLines_eq_flatMap]

/-! ## Lines of tokens -/

/-- A token stands on the line of the code that has its number. -/
theorem Token.exists_line_of_mem_ofSource {s : Source} {t : Token} (h : t ∈ ofSource s) :
    ∃ code, s.code.line? t.line = some code ∧ t ∈ ofCode t.line code := by
  rw [ofSource_eq] at h
  obtain ⟨⟨n, code⟩, hnumbered, ht⟩ := List.mem_flatMap.mp h
  obtain rfl : t.line = n := by
    obtain ⟨kind, _, rfl⟩ := List.mem_map.mp ht
    rfl
  exact ⟨code, Source.mem_numbered.mp hnumbered, ht⟩

/-- Every token has the number of a line of its source. -/
theorem Token.line_of_mem_ofSource {s : Source} {t : Token} (h : t ∈ ofSource s) :
    1 ≤ t.line ∧ t.line ≤ s.lineCount := by
  obtain ⟨code, hcode, _⟩ := exists_line_of_mem_ofSource h
  rw [← Source.lineCount_code]
  exact Source.exists_line?_iff.mp ⟨code, hcode⟩

/-- Of a source that has fewer than 2³² lines the numbers of all lines are 32-bit words. -/
theorem Token.line_le_max32 {s : Source} {t : Token} (hlines : s.lineCount ≤ Text.max32)
    (h : t ∈ ofSource s) : t.line ≤ Text.max32 :=
  Nat.le_trans (line_of_mem_ofSource h).2 hlines

end GemGrid
