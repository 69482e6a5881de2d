import GemGrid.Proofs.Script.Tokens

/-!
# The tokens of a text, read again

The tokens of a script can be written down one a line, and reading these lines gives the same tokens
again, each with the number of its line.  So no step of the way from a text to its tokens can make
anything that an earlier step would have taken: cutting out comments leaves no comment sign, cutting
at braces and trimming leaves no brace and no blank at the ends, and taking an `else` off leaves
none.

* `Tidy` is the normal form of a text token, and `tidy_of_mem_ofSource` says that every text token
  has it.  Most of it is inherited: a token stands in a line of the code (`tidy_of_mem_kindsOf`).
* `ofCode_of_tidy` says that a line with a tidy text is that one token.
-/

namespace GemGrid

open Text

namespace Token

/-! ## Tidy texts -/

/-- What the text of a token is like. -/
structure Tidy (cs : List Char) : Prop where
  trimmed : Trimmed cs
  noBrace : ∀ c ∈ cs, ¬ (c = '\x7b' ∨ c = '\x7d')
  verbatim : Verbatim cs
  noElse : sameWord "else" cs = false
  noElseIf : ∀ rest, ¬ ElseIf cs rest

/-- A line with a tidy text is one token. -/
theorem ofCode_of_tidy {cs : List Char} (h : Tidy cs) (n : Nat) :
    ofCode n cs = [⟨.text (String.ofList cs), n⟩] := by
  have helseIf : elseIf? cs = none := by
    rw [Option.eq_none_iff_forall_ne_some]
    exact fun rest hrest => h.noElseIf rest (elseIf?_eq_some_iff.mp hrest)
  exact ofCode_text h.noBrace h.trimmed h.noElse helseIf n

theorem Verbatim.part {line part : List Char} (h : Verbatim line) (hpart : part <:+: line) :
    Verbatim part :=
  ⟨fun hmem => h.noFeed (hpart.subset hmem), fun hmem => h.noReturn (hpart.subset hmem),
    fun hmem => h.noMark (hpart.subset hmem), h.noComment.part hpart⟩

/-! ## Pieces of lines -/

/-- Cutting a line at its braces loses nothing. -/
theorem flatten_braceParts (cs : List Char) : (braceParts cs).flatten = cs := by
  induction cs with
  | nil => rfl
  | cons c cs ih =>
      rw [braceParts]
      split
      · simp [ih]
      · split
        · next hnone =>
          rw [hnone] at ih
          simpa using ih
        · next part parts hparts =>
          rw [hparts] at ih
          simpa using ih

/-- The parts of a line, behind the first, are braces or hold none; the first holds none. -/
theorem exists_braceParts (cs : List Char) : ∃ first parts, braceParts cs = first :: parts ∧
    (∀ c ∈ first, ¬ (c = '\x7b' ∨ c = '\x7d')) ∧ ∀ part ∈ parts,
      part = ['\x7b'] ∨ part = ['\x7d'] ∨ ∀ c ∈ part, ¬ (c = '\x7b' ∨ c = '\x7d') := by
  induction cs with
  | nil => exact ⟨[], [], rfl, by simp, by simp⟩
  | cons c cs ih =>
      obtain ⟨first, parts, hcs, hfirst, hparts⟩ := ih
      rw [braceParts, hcs]
      by_cases hc : c = '\x7b' ∨ c = '\x7d'
      · refine ⟨[], [c] :: first :: parts, by rw [if_pos hc], by simp, ?_⟩
        refine List.forall_mem_cons.mpr ⟨?_, List.forall_mem_cons.mpr ⟨.inr (.inr hfirst), hparts⟩⟩
        rcases hc with rfl | rfl
        · exact .inl rfl
        · exact .inr (.inl rfl)
      · exact ⟨c :: first, parts, by rw [if_neg hc], List.forall_mem_cons.mpr ⟨hc, hfirst⟩, hparts⟩

theorem mem_linePieces {code piece : List Char} (h : piece ∈ linePieces code) :
    Trimmed piece ∧ piece <:+: code ∧
      (piece = ['\x7b'] ∨ piece = ['\x7d'] ∨ ∀ c ∈ piece, ¬ (c = '\x7b' ∨ c = '\x7d')) := by
  obtain ⟨hmem, hne⟩ := List.mem_filter.mp h
  obtain ⟨part, hpart, rfl⟩ := List.mem_map.mp hmem
  have htrimmed : Trimmed (trim part) := trimmed_trim (by simpa using hne)
  have hinside : part <:+: code := by
    have hflatten := List.infix_of_mem_flatten hpart
    rwa [flatten_braceParts] at hflatten
  refine ⟨htrimmed, (infix_trim part).trans hinside, ?_⟩
  -- a part that is no brace has none in it, and trimming adds none
  obtain ⟨first, parts, hcode, hfirst, hparts⟩ := exists_braceParts code
  rw [hcode] at hpart
  have hkind := List.forall_mem_cons.mpr ⟨.inr (.inr hfirst), hparts⟩ part hpart
  rcases hkind with rfl | rfl | hnone
  · exact .inl (by decide)
  · exact .inr (.inl (by decide))
  · exact .inr (.inr fun c hc => hnone c ((infix_trim part).subset hc))

/-- The text behind an `else` is tidy if what they stand in is. -/
theorem tidy_of_elseIf {piece rest : List Char} (h : ElseIf piece rest)
    (hbrace : ∀ c ∈ piece, ¬ (c = '\x7b' ∨ c = '\x7d')) (hverbatim : Verbatim piece) :
    Tidy rest := by
  obtain @⟨word, gap, keyword, tail, _, _, hif, _⟩ := h
  obtain ⟨c, more, hstart, hblank, hletter⟩ := head?_of_if hif tail
  -- what follows `else` lies inside the piece, so it has neither braces nor characters of its own
  have hinside : trim (keyword ++ tail) <:+: word ++ (gap ++ (keyword ++ tail)) :=
    (infix_trim _).trans ((List.suffix_append _ _).trans (List.suffix_append _ _)).isInfix
  have hhead : (trim (keyword ++ tail)).head? = some c := by
    rw [hstart]
    exact head?_trim hblank more
  have hne : trim (keyword ++ tail) ≠ [] := by
    intro hnil
    rw [hnil] at hhead
    cases hhead
  -- it starts with the letter of `if`, so it is no `else` itself
  have hfirst : (trim (keyword ++ tail)).head?.map Char.toLower ≠ some 'e' := by
    simp [hhead, hletter]
  obtain ⟨helse, helseIf⟩ := not_else_of_head hfirst
  refine ⟨trimmed_trim hne, fun d hd => hbrace d (hinside.subset hd), hverbatim.part hinside, helse,
    fun rest hrest => ?_⟩
  rw [elseIf?_eq_some_iff.mpr hrest] at helseIf
  cases helseIf

/-- A text token is tidy if the line of its piece is read as it is written. -/
theorem tidy_of_mem_kindsOf {code piece : List Char} {content : String}
    (hpiece : piece ∈ linePieces code) (hcode : Verbatim code)
    (h : .text content ∈ kindsOf piece) : Tidy content.toList := by
  obtain ⟨htrimmed, hinside, hbraces⟩ := mem_linePieces hpiece
  unfold kindsOf at h
  split at h
  · simp at h
  · next hleft =>
    split at h
    · simp at h
    · next hright =>
      -- the piece is no brace, so it has none at all
      have hbrace := (hbraces.resolve_left hleft).resolve_left hright
      split at h
      · simp at h
      · next helse =>
        split at h
        · next rest hrest =>
          -- what follows `else` is a text of its own; otherwise the text is the whole piece
          obtain rfl : content = String.ofList rest := by simpa using h
          rw [String.toList_ofList]
          exact tidy_of_elseIf (elseIf?_eq_some_iff.mp hrest) hbrace (hcode.part hinside)
        · next hnone =>
          obtain rfl : content = String.ofList piece := by simpa using h
          rw [String.toList_ofList]
          refine ⟨htrimmed, hbrace, hcode.part hinside, Bool.eq_false_iff.mpr helse, ?_⟩
          intro rest hrest
          rw [elseIf?_eq_some_iff.mpr hrest] at hnone
          cases hnone

end Token

/-! ## Lines of code -/

theorem Source.verbatim_of_mem_lines {text : String} {line : List Char}
    (h : line ∈ (ofString text).code.lines) : Token.Verbatim line := by
  have hinside : line <:+: (ofString text).code.chars := infix_of_mem_pieces h
  have hchars : line ⊆ (ofString text).chars := fun c hc =>
    Script.strip_subset .code _ (hinside.subset hc)
  exact ⟨feed_not_mem h, fun hmem => return_not_mem text (hchars hmem),
    fun hmem => mark_not_mem text (hchars hmem), (Script.noComment_strip .code _).part hinside⟩

namespace Token

/-- A token is made from a piece of a line of the code. -/
theorem exists_piece_of_mem_ofSource {s : Source} {t : Token} (h : t ∈ ofSource s) :
    ∃ code ∈ s.code.lines, ∃ piece ∈ linePieces code, t.kind ∈ kindsOf piece := by
  obtain ⟨code, hcode, ht⟩ := exists_line_of_mem_ofSource h
  obtain ⟨kind, hkind, hkind'⟩ := List.mem_map.mp ht
  obtain rfl : kind = t.kind := congrArg Token.kind hkind'
  exact ⟨code, Source.mem_lines_of_line? hcode, List.mem_flatMap.mp hkind⟩

theorem tidy_of_mem_ofSource {text content : String} {t : Token}
    (h : t ∈ ofSource (.ofString text)) (hkind : t.kind = .text content) : Tidy content.toList := by
  obtain ⟨code, hcode, piece, hpiece, hmem⟩ := exists_piece_of_mem_ofSource h
  rw [hkind] at hmem
  exact tidy_of_mem_kindsOf hpiece (Source.verbatim_of_mem_lines hcode) hmem

/-! ## Tokens one a line -/

/-- The texts of tokens, one a line. -/
def relaid (tokens : List Token) : String :=
  String.ofList (['\n'].intercalate (tokens.map fun t => t.text.toList))

/-- A token of a script is what its text is read as. -/
theorem ofCode_text_of_mem {text : String} {t : Token} (h : t ∈ ofSource (.ofString text))
    (n : Nat) : ofCode n t.text.toList = [⟨t.kind, n⟩] := by
  obtain ⟨kind, line⟩ := t
  cases kind with
  | lbrace => exact show ofCode n "\x7b".toList = _ from rfl
  | rbrace => exact show ofCode n "\x7d".toList = _ from rfl
  | otherwise => exact show ofCode n "else".toList = _ from rfl
  | text content =>
      have hline := ofCode_of_tidy (tidy_of_mem_ofSource h rfl) n
      rwa [String.ofList_toList] at hline

theorem verbatim_of_mem {text : String} {t : Token} (h : t ∈ ofSource (.ofString text)) :
    Verbatim t.text.toList := by
  have hsigns : ∀ kind ∈ [TokenKind.lbrace, .rbrace, .otherwise],
      kind.render.toList.all isCode = true := by
    decide
  obtain ⟨kind, line⟩ := t
  cases kind with
  | text content => exact (tidy_of_mem_ofSource h rfl).verbatim
  | _ => exact verbatim_of_code (List.all_eq_true.mp (hsigns _ (by simp)))

/-- Lines that are one token each. -/
theorem ofLayout_texts {tokens : List Token}
    (h : ∀ t ∈ tokens, ∀ n, ofCode n t.text.toList = [⟨t.kind, n⟩]) (n : Nat) :
    ofLayout n (tokens.map text) = ((tokens.map (·.kind)).zipIdx n).map fun (kind, line) =>
      { kind, line } := by
  induction tokens generalizing n with
  | nil => rfl
  | cons t tokens ih =>
      obtain ⟨ht, htokens⟩ := List.forall_mem_cons.mp h
      rw [List.map_cons, ofLayout, ht, ih htokens, List.map_cons, List.zipIdx_cons, List.map_cons,
        List.singleton_append]

/-- **Reading its own tokens changes nothing.**  The tokens of a script, written one a line, are
read as the same kinds in the same order, and each gets the number of its line.  The texts among
them are tidy.

Lines are counted in words of 32 bits, which the script and its tokens must not be too many for. -/
theorem ofSource_relaid (text : String) :
    let tokens := ofSource (.ofString text)
    ofSource (.ofString (relaid tokens)) =
      ((tokens.map (·.kind)).zipIdx 1).map (fun (kind, line) => { kind, line }) ∧
    ∀ content, .text content ∈ tokens.map (·.kind) → Tidy content.toList := by
  intro tokens
  refine ⟨?_, fun content hmem => ?_⟩
  · cases htokens : tokens with
    | nil => rfl
    | cons first rest =>
        have hne : tokens.map Token.text ≠ [] := by simp [htokens]
        -- the texts of the tokens are lines without comments, breaks or marks
        have hverbatim : ∀ line ∈ tokens.map Token.text, Verbatim line.toList :=
          List.forall_mem_map.mpr fun t ht => verbatim_of_mem ht
        have hjoined : ['\n'].intercalate (tokens.map fun t => t.text.toList) =
            ['\n'].intercalate ((tokens.map Token.text).map String.toList) := by
          rw [List.map_map]
          rfl
        rw [← htokens, relaid, ofSource_verbatim hne hverbatim hjoined]
        exact ofLayout_texts (fun t ht => ofCode_text_of_mem ht) 1
  · obtain ⟨t, ht, hkind⟩ := List.mem_map.mp hmem
    exact tidy_of_mem_ofSource ht hkind

theorem ofSource_relaid_split_else :
    let tokens := ofSource (.ofString "\x7d eLsE\tIf(a)/*\x7b*/b \x7b // c")
    tokens.map (·.kind) = [.rbrace, .otherwise, .text "If(a)b", .lbrace] ∧
    ofSource (.ofString (relaid tokens)) =
      [⟨.rbrace, 1⟩, ⟨.otherwise, 2⟩, ⟨.text "If(a)b", 3⟩, ⟨.lbrace, 4⟩] ∧
    Tidy "If(a)b".toList := by
  intro tokens
  have hkinds : tokens.map (·.kind) = [.rbrace, .otherwise, .text "If(a)b", .lbrace] := by
    decide +kernel
  obtain ⟨hagain, htidy⟩ := ofSource_relaid "\x7d eLsE\tIf(a)/*\x7b*/b \x7b // c"
  refine ⟨hkinds, ?_, htidy _ (hkinds ▸ by simp)⟩
  rw [hagain, hkinds]
  rfl

end Token

end GemGrid
