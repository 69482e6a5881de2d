import GemGrid.Proofs.Script.Layout
import GemGrid.Proofs.Script.LineTokens

/-!
# The tokens of laid out lines

The way from a laid out text to its tokens goes through line breaks, byte order marks, comments,
braces and the word `else`.  Headers are written with letters, digits, blanks, parentheses and the
signs of conditions only (`Token.isPlain`), so nothing on the way takes anything away from them.

* `Token.Single cs` says that a text stands for one token: it is plain, trimmed, and not a form of
  `else`.  All headers of the layout are single; for a call this is where the name `elseif` has to be
  left out.
* `Token.ofCode_header`, `Token.ofCode_opening`: the tokens of a line.
* `Token.ofSource_verbatim`: the tokens of a text are those of its lines, each with the number of
  the line, if the lines are `Verbatim`: nothing in them ends a line, is removed or starts a comment.
-/

namespace GemGrid

open Text

namespace Token

/-! ## Texts that stand for one token -/

/-- The characters of headers. -/
def isPlain (c : Char) : Bool :=
  isNameChar c || [' ', '(', ')', '!', '&', '|'].contains c

theorem plain_of_all {cs : List Char} (h : cs.all isPlain = true) : ∀ c ∈ cs, isPlain c = true :=
  List.all_eq_true.mp h

/-- A text that stands for one token. -/
structure Single (cs : List Char) : Prop where
  plain : ∀ c ∈ cs, isPlain c = true
  trimmed : Trimmed cs
  noElse : sameWord "else" cs = false
  noElseIf : elseIf? cs = none

theorem not_brace_of_isPlain {c : Char} (h : isPlain c = true) : ¬ (c = '\x7b' ∨ c = '\x7d') := by
  rintro (rfl | rfl) <;> cases h

theorem Single.not_brace {cs : List Char} (h : Single cs) :
    ∀ c ∈ cs, ¬ (c = '\x7b' ∨ c = '\x7d') :=
  fun c hc => not_brace_of_isPlain (h.plain c hc)

theorem Single.kindsOf_eq {cs : List Char} (h : Single cs) :
    kindsOf cs = [.text (String.ofList cs)] :=
  kindsOf_text h.not_brace h.noElse h.noElseIf

theorem ofCode_header {header : String} (h : Single header.toList) (n : Nat) :
    ofCode n header.toList = [⟨.text header, n⟩] := by
  rw [ofCode_text h.not_brace h.trimmed h.noElse h.noElseIf, String.ofList_toList]

theorem ofCode_opening {header : String} (h : Single header.toList) (n : Nat) :
    ofCode n (Layout.opening header).toList = [⟨.text header, n⟩, ⟨.lbrace, n⟩] := by
  have hplain : ∀ c ∈ header.toList ++ [' '], isPlain c = true :=
    List.forall_mem_append.mpr ⟨h.plain, plain_of_all (by decide)⟩
  have htext : (Layout.opening header).toList = (header.toList ++ [' ']) ++ '\x7b' :: [] := by
    simp [Layout.opening]
  have hbrace : NoBrace (header.toList ++ [' ']) := fun c hc => not_brace_of_isPlain (hplain c hc)
  have hpieces : linePieces (Layout.opening header).toList = [header.toList, ['\x7b']] := by
    have hblank : isBlank ' ' = true := by decide
    rw [htext, linePieces_append hbrace (.inl rfl), linePieces_of_noBrace hbrace,
      h.trimmed.trim_concat hblank]
    simp [linePieces, braceParts, h.trimmed.nonempty]
  simp only [ofCode, hpieces, List.flatMap_cons, h.kindsOf_eq, String.ofList_toList]
  rfl

theorem ofCode_closing (n : Nat) : ofCode n Layout.closing.toList = [⟨.rbrace, n⟩] := by
  rfl

theorem ofCode_otherwise (n : Nat) :
    ofCode n Layout.otherwise.toList = [⟨.rbrace, n⟩, ⟨.otherwise, n⟩, ⟨.lbrace, n⟩] := by
  rfl

/-! ## Headers stand for one token -/

theorem isPlain_of_isNameChar {c : Char} (h : isNameChar c = true) : isPlain c = true := by
  rw [isPlain, h, Bool.true_or]

theorem isNameChar_of_isDigit {c : Char} (h : c.isDigit = true) : isNameChar c = true := by
  rw [isNameChar, Char.isAlphanum, h, Bool.or_true, Bool.true_or]

/-- A text that starts with another letter than `else` is no form of it. -/
theorem not_else_of_head {cs : List Char} (hhead : cs.head?.map Char.toLower ≠ some 'e') :
    sameWord "else" cs = false ∧ elseIf? cs = none := by
  have hafter : afterWord? "else" cs = none := by
    rw [Option.eq_none_iff_forall_ne_some]
    exact fun rest hrest => hhead (Script.head?_of_afterWord? (by decide) hrest)
  refine ⟨?_, by rw [elseIf?, hafter]; rfl⟩
  rw [Bool.eq_false_iff]
  intro hword
  rw [Script.afterWord?_eq_some_iff.mpr ⟨cs, (List.append_nil cs).symm, hword⟩] at hafter
  cases hafter

theorem single_of_head {cs : List Char} (hplain : ∀ c ∈ cs, isPlain c = true)
    (htrimmed : Trimmed cs) (hhead : cs.head?.map Char.toLower ≠ some 'e') : Single cs :=
  ⟨hplain, htrimmed, (not_else_of_head hhead).1, (not_else_of_head hhead).2⟩

theorem trimmed_of_isName {name : List Char} (h : isName name = true) : Trimmed name := by
  have hne : name ≠ [] := by
    rintro rfl
    cases h
  exact trimmed_of_not_blank hne fun c hc =>
    isBlank_eq_false_of_isNameChar (Script.isNameChar_of_isName h c hc)

theorem trimmed_parens : Trimmed ['(', ')'] :=
  trimmed_of_any (by simp) (by decide)

theorem not_blank_of_call {name : List Char} (hname : isName name = true) :
    ∀ c ∈ name ++ ['(', ')'], isBlank c = false := by
  refine List.forall_mem_append.mpr ⟨fun c hc => ?_, eq_false_of_any (by decide)⟩
  exact isBlank_eq_false_of_isNameChar (Script.isNameChar_of_isName hname c hc)

/-- A call that reads as `else if` is a call of `elseif`. -/
theorem sameWord_of_elseIf? {name rest : List Char} (hname : isName name = true)
    (h : elseIf? (name ++ ['(', ')']) = some rest) : sameWord "elseif" name = true := by
  have hblank := not_blank_of_call hname
  generalize hcall : name ++ ['(', ')'] = cs at h hblank
  obtain @⟨start, gap, word, tail, helse, hgap, hif, hboundary⟩ := elseIf?_eq_some_iff.mp h
  -- a call has no blanks, so nothing is between the two words
  have hnil : gap = [] := by
    by_contra hne
    obtain ⟨c, hc⟩ := List.exists_mem_of_ne_nil gap hne
    exact Bool.eq_false_iff.mp (hblank c (by simp [hc])) (hgap c hc)
  rw [hnil, List.nil_append, ← List.append_assoc] at hcall
  have hletters : (start ++ word).map Char.toLower = "elseif".toList := by
    rw [List.map_append, eq_of_beq helse, eq_of_beq hif]
    rfl
  -- both words lie inside the name, and the name ends with them
  rcases List.append_eq_append_iff.mp hcall with ⟨more, hsplit, hparens⟩ | ⟨more, hsplit, hparens⟩
  · cases more with
    | nil =>
        rw [List.append_nil] at hsplit
        rw [sameWord, ← hsplit, hletters]
        rfl
    | cons c more =>
        obtain ⟨rfl, -⟩ := List.cons.inj hparens
        have hmem : Char.toLower '(' ∈ (start ++ word).map Char.toLower :=
          List.mem_map_of_mem (by simp [hsplit])
        rw [hletters] at hmem
        exact absurd hmem (by decide)
  · cases more with
    | nil =>
        rw [List.append_nil] at hsplit
        rw [sameWord, hsplit, hletters]
        rfl
    | cons c more =>
        have hc : isNameChar c = true := Script.isNameChar_of_isName hname c (by simp [hsplit])
        rw [hboundary c (by simp [hparens])] at hc
        cases hc

theorem plain_call {name : List Char} (hname : isName name = true) :
    ∀ c ∈ name ++ ['(', ')'], isPlain c = true := by
  refine List.forall_mem_append.mpr ⟨fun c hc => ?_, plain_of_all (by decide)⟩
  exact isPlain_of_isNameChar (Script.isNameChar_of_isName hname c hc)

theorem trimmed_call {name : List Char} (hname : isName name = true) :
    Trimmed (name ++ ['(', ')']) :=
  (trimmed_of_isName hname).append trimmed_parens []

/-- No call is the word `else`: the last characters differ. -/
theorem not_else_call (name : List Char) : sameWord "else" (name ++ ['(', ')']) = false := by
  rw [Bool.eq_false_iff]
  intro hword
  have hlast := congrArg List.getLast? (eq_of_beq hword)
  simp at hlast

theorem single_call {name : String} (hname : isName name.toList = true)
    (helse : sameWord "elseif" name.toList = false) : Single (Layout.call name).toList := by
  rw [Layout.toList_call]
  refine ⟨plain_call hname, trimmed_call hname, not_else_call name.toList, ?_⟩
  rw [Option.eq_none_iff_forall_ne_some]
  intro rest hrest
  rw [sameWord_of_elseIf? hname hrest] at helse
  cases helse

theorem single_function {name : String} (hname : isName name.toList = true) :
    Single (Layout.function name).toList := by
  have htext : (Layout.function name).toList =
      "func".toList ++ ([' '] ++ (name.toList ++ ([] ++ ['(', ')']))) := by
    simp [Layout.function, Layout.call]
  have hfunc : Trimmed "func".toList := trimmed_of_any (by decide) (by decide)
  rw [htext]
  refine single_of_head ?_ ?_ (by simp)
  · have hletters : ∀ c ∈ name.toList, isPlain c = true := fun c hc =>
      isPlain_of_isNameChar (Script.isNameChar_of_isName hname c hc)
    simp only [List.forall_mem_append]
    exact ⟨plain_of_all (by decide), plain_of_all (by decide), hletters, by simp,
      plain_of_all (by decide)⟩
  · exact hfunc.append ((trimmed_of_isName hname).append trimmed_parens []) [' ']

theorem single_loop (count : Nat) : Single (Layout.loop count).toList := by
  have htext : (Layout.loop count).toList =
      "for".toList ++ ([' '] ++ (count.repr.toList ++ ([' '] ++ "times".toList))) := by
    simp [Layout.loop]
  have hfor : Trimmed "for".toList := trimmed_of_any (by decide) (by decide)
  have htimes : Trimmed "times".toList := trimmed_of_any (by decide) (by decide)
  rw [htext]
  refine single_of_head ?_ ?_ (by simp)
  · have hdigits : ∀ c ∈ count.repr.toList, isPlain c = true := fun c hc =>
      isPlain_of_isNameChar (isNameChar_of_isDigit (isDigit_of_mem_repr hc))
    simp only [List.forall_mem_append]
    exact ⟨plain_of_all (by decide), plain_of_all (by decide), hdigits, plain_of_all (by decide),
      plain_of_all (by decide)⟩
  · exact hfor.append ((trimmed_repr count).append htimes [' ']) [' ']

end Token

/-! ## Conditions -/

namespace Condition

theorem wrap_plain {text : String} (h : ∀ c ∈ text.toList, Token.isPlain c = true) (parens : Bool) :
    ∀ c ∈ (wrap parens text).toList, Token.isPlain c = true := by
  cases parens with
  | false => exact h
  | true =>
      have htext : (wrap true text).toList = ['('] ++ (text.toList ++ [')']) := by simp [wrap]
      rw [htext]
      simp only [List.forall_mem_append]
      exact ⟨Token.plain_of_all (by decide), h, Token.plain_of_all (by decide)⟩

theorem wrap_trimmed {text : String} (h : Trimmed text.toList) (parens : Bool) :
    Trimmed (wrap parens text).toList := by
  cases parens with
  | false => exact h
  | true =>
      have htext : (wrap true text).toList = ['('] ++ (text.toList ++ [')']) := by simp [wrap]
      have hopen : Trimmed ['('] := trimmed_of_any (by simp) (by decide)
      have hclose : Trimmed [')'] := trimmed_of_any (by simp) (by decide)
      rw [htext]
      exact hopen.append hclose text.toList

theorem render_plain (c : Condition) : ∀ d ∈ c.render.toList, Token.isPlain d = true := by
  induction c with
  | predicate p => cases p <;> exact Token.plain_of_all (by decide)
  | not c ih =>
      -- a sign in front of a plain text, in parentheses where the operand needs them
      have htext : (Condition.not c).render.toList = ['!'] ++ (wrap c.isLogical c.render).toList := by
        simp [render]
      rw [htext, List.forall_mem_append]
      exact ⟨Token.plain_of_all (by decide), wrap_plain ih _⟩
  | logical op l r ihl ihr =>
      have hblank := Token.plain_of_all (show [' '].all Token.isPlain = true by decide)
      have hsymbol : ∀ d ∈ op.symbol.toList, Token.isPlain d = true := by
        cases op <;> exact Token.plain_of_all (by decide)
      have htext : (Condition.logical op l r).render.toList =
          (wrap (l.needsParens op false) l.render).toList ++ ([' '] ++ (op.symbol.toList ++
            ([' '] ++ (wrap (r.needsParens op true) r.render).toList))) := by
        simp [render]
      rw [htext]
      simp only [List.forall_mem_append]
      exact ⟨wrap_plain ihl _, hblank, hsymbol, hblank, wrap_plain ihr _⟩

theorem render_trimmed (c : Condition) : Trimmed c.render.toList := by
  induction c with
  | predicate p => cases p <;> exact trimmed_of_any (by decide) (by decide)
  | not c ih =>
      have htext : (Condition.not c).render.toList =
          ['!'] ++ ([] ++ (wrap c.isLogical c.render).toList) := by
        simp [render]
      have hsign : Trimmed ['!'] := trimmed_of_any (by simp) (by decide)
      rw [htext]
      exact hsign.append (wrap_trimmed ih _) []
  | logical op l r ihl ihr =>
      have htext : (Condition.logical op l r).render.toList =
          (wrap (l.needsParens op false) l.render).toList ++
            ((' ' :: (op.symbol.toList ++ [' '])) ++
              (wrap (r.needsParens op true) r.render).toList) := by
        simp [render]
      rw [htext]
      exact (wrap_trimmed ihl _).append (wrap_trimmed ihr _) _

end Condition

theorem Token.single_guard {keyword : String} (h : keyword = "if" ∨ keyword = "while")
    (condition : Condition) : Single (Layout.guard keyword condition).toList := by
  have htext : (Layout.guard keyword condition).toList =
      keyword.toList ++ ([' '] ++ condition.render.toList) := by
    simp [Layout.guard]
  have hplain : ∀ c ∈ keyword.toList, isPlain c = true := by
    rcases h with rfl | rfl <;> exact plain_of_all (by decide)
  have hword : Trimmed keyword.toList := by
    rcases h with rfl | rfl <;> exact trimmed_of_any (by decide) (by decide)
  -- no keyword begins like `else`
  have hhead : keyword.toList.head?.map Char.toLower ≠ some 'e' := by
    rcases h with rfl | rfl <;> decide
  rw [htext]
  refine single_of_head ?_ (hword.append condition.render_trimmed [' ']) ?_
  · simp only [List.forall_mem_append]
    exact ⟨hplain, plain_of_all (by decide), condition.render_plain⟩
  · rwa [List.head?_append_of_ne_nil _ hword.nonempty]

/-! ## The lines of a text -/

namespace Token

/-- The characters of laid out lines. -/
def isCode (c : Char) : Bool :=
  isPlain c || c == '\x7b' || c == '\x7d'

theorem code_header {header : String} (h : Single header.toList) :
    ∀ c ∈ header.toList, isCode c = true := by
  intro c hc
  rw [isCode, h.plain c hc, Bool.true_or, Bool.true_or]

theorem code_opening {header : String} (h : Single header.toList) :
    ∀ c ∈ (Layout.opening header).toList, isCode c = true := by
  rw [Layout.opening, String.toList_append, List.forall_mem_append]
  exact ⟨code_header h, List.all_eq_true.mp (by decide)⟩

theorem code_closing : ∀ c ∈ Layout.closing.toList, isCode c = true :=
  List.all_eq_true.mp (by decide)

theorem code_otherwise : ∀ c ∈ Layout.otherwise.toList, isCode c = true :=
  List.all_eq_true.mp (by decide)

/-- The tokens of lines that start at line `n`. -/
def ofLayout : Nat → List String → List Token
  | _, [] => []
  | n, line :: lines => ofCode n line.toList ++ ofLayout (n + 1) lines

theorem ofLayout_append (n : Nat) (lines lines' : List String) :
    ofLayout n (lines ++ lines') = ofLayout n lines ++ ofLayout (n + lines.length) lines' := by
  induction lines generalizing n with
  | nil => rfl
  | cons line lines ih =>
      rw [List.cons_append, ofLayout, ofLayout, ih, List.length_cons, List.append_assoc,
        Nat.add_assoc n 1, Nat.add_comm 1]

/-- A line that is read as it is written. -/
structure Verbatim (line : List Char) : Prop where
  noFeed : '\n' ∉ line
  noReturn : '\r' ∉ line
  noMark : '\uFEFF' ∉ line
  noComment : Script.NoComment line

theorem verbatim_of_code {line : List Char} (h : ∀ c ∈ line, isCode c = true) : Verbatim line := by
  have hother : ∀ d, isCode d = false → d ∉ line := by
    intro d hd hmem
    rw [h d hmem] at hd
    cases hd
  exact ⟨hother '\n' (by decide), hother '\r' (by decide), hother '\uFEFF' (by decide),
    Script.noComment_of_not_mem (hother '/' (by decide))⟩

theorem ofLines_eq {lines : List String} (h : ∀ line ∈ lines, Verbatim line.toList) (n : Nat) :
    ofLines false (((lines.map String.toList).zipIdx n).map fun (line, k) => (k, line)) =
      ofLayout n lines := by
  induction lines generalizing n with
  | nil => rfl
  | cons line lines ih =>
      obtain ⟨hline, hlines⟩ := List.forall_mem_cons.mp h
      rw [List.map_cons, List.zipIdx_cons, List.map_cons, ofLines,
        Script.stripLine_eq_self hline.noComment, ofLayout, ← ih hlines]

/-- Lines that are read as they are written are the lines of their text. -/
theorem lines_verbatim {lines : List String} (hne : lines ≠ [])
    (h : ∀ line ∈ lines, Verbatim line.toList) {text : List Char}
    (htext : text = ['\n'].intercalate (lines.map String.toList)) :
    (Source.ofString (String.ofList text)).lines = lines.map String.toList := by
  -- neither a return nor a mark comes in with the breaks that join the lines
  have habsent : ∀ d, d ≠ '\n' → (∀ line ∈ lines, d ∉ line.toList) → d ∉ text := by
    intro d hd hother hmem
    rw [htext] at hmem
    rcases mem_intercalate hmem with heq | ⟨_, hpiece, hmem⟩
    · exact hd heq
    · obtain ⟨line, hline, rfl⟩ := List.mem_map.mp hpiece
      exact hother line hline hmem
  have hreturn : '\r' ∉ text := habsent '\r' (by decide) fun line hline => (h line hline).noReturn
  have hmark : '\uFEFF' ∉ text :=
    habsent '\uFEFF' (by decide) fun line hline => (h line hline).noMark
  rw [Source.lines, Source.chars_ofString_eq_self hreturn hmark, htext]
  refine pieces_intercalate (by simpa using hne) fun _ hpiece => ?_
  obtain ⟨line, hline, rfl⟩ := List.mem_map.mp hpiece
  exact (h line hline).noFeed

/-- The tokens of a text are those of its lines. -/
theorem ofSource_verbatim {lines : List String} (hne : lines ≠ [])
    (h : ∀ line ∈ lines, Verbatim line.toList) {text : List Char}
    (htext : text = ['\n'].intercalate (lines.map String.toList)) :
    ofSource (.ofString (String.ofList text)) = ofLayout 1 lines := by
  rw [ofSource, Source.numbered, lines_verbatim hne h htext, ofLines_eq h]

theorem ofSource_text {lines : List String} (hne : lines ≠ [])
    (h : ∀ line ∈ lines, ∀ c ∈ line.toList, isCode c = true) {text : List Char}
    (htext : text = ['\n'].intercalate (lines.map String.toList)) :
    ofSource (.ofString (String.ofList text)) = ofLayout 1 lines :=
  ofSource_verbatim hne (fun line hline => verbatim_of_code (h line hline)) htext

end Token

end GemGrid
