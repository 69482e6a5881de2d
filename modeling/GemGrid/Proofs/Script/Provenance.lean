import GemGrid.Proofs.Script.Comments
import GemGrid.Proofs.Script.Counting
import GemGrid.Proofs.Script.Programs

/-!
# Where the statements of a program come from

A program that has been read keeps every statement of its script, and what it says of itself is
true.

* Statements are listed by their headers, outer ones first (`Stmt.sourcesIn`).  Each rule of the
  grammar takes one header for each statement that it forms, in the same order, so the headers of a
  phrase are the texts among its tokens (`Derives.sources`).  In a whole script functions stand
  between the main statements, so the headers are the texts up to the order of the two kinds
  (`DerivesScript.sources`), and each kind is in order (`DerivesScript.sublist_main`,
  `DerivesScript.sublist_function`).
* Tokens come line by line, so the numbers of their lines never decrease (`Token.pairwise_line`).
* The flag of the metadata is what the parser has remembered, and that follows the tree: rule by rule
  in `Derives.parses`, for a whole script in `items_remembers`.  In the tree it means that an `if` or
  a `while` stands somewhere (`anyDynamic_iff`), as one does that can be reached (`Reaches.within`).
-/

namespace GemGrid

/-! ## Headers in reading order -/

namespace Stmt

mutual

/-- The headers of a statement and of the statements inside it, outer ones first. -/
def sources : Stmt → List SourceRef
  | .command _ source | .call _ source => [source]
  | .loop _ body source | .whileDo _ body source => source :: sourcesIn body
  | .ifThen _ consequent source => source :: sourcesIn consequent
  | .ifElse _ consequent alternate source =>
    source :: (sourcesIn consequent ++ sourcesIn alternate)

/-- The headers of a list of statements, outer ones first. -/
def sourcesIn : List Stmt → List SourceRef
  | [] => []
  | s :: ss => s.sources ++ sourcesIn ss

end

end Stmt

/-- The header of a function and those of its statements. -/
def FunctionDef.sources (f : FunctionDef) : List SourceRef :=
  f.source :: Stmt.sourcesIn f.body

namespace Token

/-- The place of a token that is a text. -/
def textSource? (t : Token) : Option SourceRef :=
  match t.kind with
  | .text content => some { line := t.line, text := content }
  | _ => none

/-- The places of the texts among some tokens. -/
def textSources (ts : List Token) : List SourceRef :=
  ts.filterMap textSource?

@[simp] theorem textSources_nil : textSources [] = [] :=
  rfl

@[simp] theorem textSources_text (content : String) (line : Nat) (ts : List Token) :
    textSources (⟨.text content, line⟩ :: ts) =
      { line := line, text := content } :: textSources ts :=
  rfl

@[simp] theorem textSources_lbrace (line : Nat) (ts : List Token) :
    textSources (⟨.lbrace, line⟩ :: ts) = textSources ts :=
  rfl

@[simp] theorem textSources_rbrace (line : Nat) (ts : List Token) :
    textSources (⟨.rbrace, line⟩ :: ts) = textSources ts :=
  rfl

@[simp] theorem textSources_otherwise (line : Nat) (ts : List Token) :
    textSources (⟨.otherwise, line⟩ :: ts) = textSources ts :=
  rfl

/-! ## Lines -/

theorem line_of_mem_ofCode {n : Nat} {code : List Char} {t : Token} (h : t ∈ ofCode n code) :
    t.line = n := by
  obtain ⟨kind, _, rfl⟩ := List.mem_map.mp h
  rfl

theorem pairwise_numbered (s : Source) : s.numbered.Pairwise (·.1 < ·.1) := by
  have hnumbers : (s.numbered.map Prod.fst).Pairwise (· < ·) := by
    rw [Source.map_fst_numbered]
    exact List.pairwise_lt_range'
  exact List.pairwise_map.mp hnumbers

/-- The tokens of a source come line by line. -/
theorem pairwise_line (s : Source) : (ofSource s).Pairwise (·.line ≤ ·.line) := by
  rw [ofSource_eq]
  refine List.pairwise_flatMap.mpr ⟨fun numbered _ => ?_, ?_⟩
  · refine List.pairwise_of_forall_mem_list fun t ht u hu => ?_
    rw [line_of_mem_ofCode ht, line_of_mem_ofCode hu]
  · refine (pairwise_numbered s.code).imp fun hlt t ht u hu => ?_
    rw [line_of_mem_ofCode ht, line_of_mem_ofCode hu]
    exact Nat.le_of_lt hlt

theorem line_of_textSource? {t : Token} {ref : SourceRef} (h : t.textSource? = some ref) :
    ref.line = t.line := by
  unfold textSource? at h
  split at h
  · cases h
    rfl
  · cases h

theorem pairwise_textSources (s : Source) :
    (textSources (ofSource s)).Pairwise (·.line ≤ ·.line) := by
  refine List.pairwise_filterMap.mpr ((pairwise_line s).imp ?_)
  intro t u hle ref href ref' href'
  rw [line_of_textSource? href, line_of_textSource? href']
  exact hle

end Token

namespace Script

open Token

/-! ## Phrases -/

/-- The headers in a phrase. -/
def Phrase.sources : Phrase → List SourceRef
  | .conditional s | .statement s => s.sources
  | .statements ss | .block ss | .alternative (some ss) => Stmt.sourcesIn ss
  | .alternative none => []

theorem sources_ifWith (condition : Condition) (consequent : List Stmt)
    (alternate : Option (List Stmt)) (source : SourceRef) :
    (Stmt.ifWith condition consequent alternate source).sources =
      source :: (Stmt.sourcesIn consequent ++ (Phrase.alternative alternate).sources) := by
  cases alternate with
  | none => simp [Stmt.ifWith, Stmt.sources, Phrase.sources]
  | some ss => simp [Stmt.ifWith, Stmt.sources, Phrase.sources]

/-- The headers of a phrase are the texts that it takes, in order. -/
theorem Derives.sources {ts rest : List Token} {phrase : Phrase} (h : Derives ts phrase rest) :
    textSources ts = phrase.sources ++ textSources rest := by
  induction h with
  | conditional _ _ _ _ ihblock ihelse =>
      rw [textSources_text, ihblock, ihelse]
      show _ = (Stmt.ifWith _ _ _ _).sources ++ _
      rw [sources_ifWith]
      simp [Phrase.sources]
  | cons _ _ ihfirst ihmore =>
      rw [ihfirst, ihmore]
      simp [Phrase.sources, Stmt.sourcesIn]
  | block _ ih => simpa [Phrase.sources] using ih
  | elseIf _ ih => simpa [Phrase.sources, Stmt.sourcesIn] using ih
  | _ => simp_all [Phrase.sources, Stmt.sources, Stmt.sourcesIn]

/-! ## Whole scripts -/

section Scripts

variable {tokens : List Token} {main : List Stmt} {functions : List FunctionDef}

/-- The headers of a script are its texts; none is lost and none is added. -/
theorem DerivesScript.sources (h : DerivesScript tokens main functions) :
    (Stmt.sourcesIn main ++ functions.flatMap FunctionDef.sources).Perm (textSources tokens) := by
  induction h with
  | nil => exact .refl _
  | @statement s ts rest main functions hs _ ih =>
      rw [hs.sources, Stmt.sourcesIn, List.append_assoc]
      exact ih.append_left s.sources
  | @function content line name body main ts rest functions _ hblock _ ih =>
      rw [textSources_text, hblock.sources, List.flatMap_cons]
      -- the function comes before the main statements that follow it
      refine (List.perm_append_comm_assoc ..).trans ?_
      exact ih.append_left (FunctionDef.sources _)

theorem DerivesScript.sublist_main (h : DerivesScript tokens main functions) :
    (Stmt.sourcesIn main).Sublist (textSources tokens) := by
  induction h with
  | nil => exact .refl _
  | statement hs _ ih =>
      rw [hs.sources, Stmt.sourcesIn]
      exact (List.Sublist.refl _).append ih
  | function _ hblock _ ih =>
      rw [textSources_text, hblock.sources]
      exact (ih.trans (List.sublist_append_right ..)).cons _

theorem DerivesScript.sublist_function (h : DerivesScript tokens main functions) :
    ∀ f ∈ functions, f.sources.Sublist (textSources tokens) := by
  induction h with
  | nil => simp
  | statement hs _ ih =>
      intro f hf
      rw [hs.sources]
      exact (ih f hf).trans (List.sublist_append_right ..)
  | @function content line name body main ts rest functions _ hblock _ ih =>
      rw [textSources_text, hblock.sources]
      refine List.forall_mem_cons.mpr ⟨?_, fun f hf => ?_⟩
      · exact (List.sublist_append_left ..).cons_cons _
      · exact ((ih f hf).trans (List.sublist_append_right ..)).cons _

end Scripts

end Script

/-! ## Statements anywhere -/

namespace Stmt

/-- The blocks that a statement consists of. -/
def blocks : Stmt → List (List Stmt)
  | .command .. | .call .. => []
  | .loop _ body _ | .whileDo _ body _ => [body]
  | .ifThen _ consequent _ => [consequent]
  | .ifElse _ consequent alternate _ => [consequent, alternate]

/-- A statement stands somewhere in a block. -/
inductive Within (target : Stmt) : List Stmt → Prop
  | here {ss : List Stmt} : target ∈ ss → Within target ss
  | inside {s : Stmt} {ss body : List Stmt} : s ∈ ss → body ∈ s.blocks → Within target body →
      Within target ss

theorem not_within_nil (target : Stmt) : ¬ Within target [] := by
  intro h
  cases h with
  | here hmem => cases hmem
  | inside hmem _ _ => cases hmem

theorem within_cons {target s : Stmt} {ss : List Stmt} :
    Within target (s :: ss) ↔
      target = s ∨ (∃ body ∈ s.blocks, Within target body) ∨ Within target ss := by
  constructor
  · intro h
    cases h with
    | here hmem =>
        rcases List.mem_cons.mp hmem with rfl | hmem
        · exact .inl rfl
        · exact .inr (.inr (.here hmem))
    | inside hmem hbody hwithin =>
        rcases List.mem_cons.mp hmem with rfl | hmem
        · exact .inr (.inl ⟨_, hbody, hwithin⟩)
        · exact .inr (.inr (.inside hmem hbody hwithin))
  · rintro (rfl | ⟨body, hbody, hwithin⟩ | h)
    · exact .here (List.mem_cons_self ..)
    · exact .inside (List.mem_cons_self ..) hbody hwithin
    · cases h with
      | here hmem => exact .here (List.mem_cons_of_mem _ hmem)
      | inside hmem hbody hwithin => exact .inside (List.mem_cons_of_mem _ hmem) hbody hwithin

/-- An `if` or a `while` stands somewhere in a block. -/
def AsksWithin (ss : List Stmt) : Prop :=
  ∃ s, s.Guarded ∧ Within s ss

theorem asksWithin_cons {s : Stmt} {ss : List Stmt} :
    AsksWithin (s :: ss) ↔ s.Guarded ∨ (∃ body ∈ s.blocks, AsksWithin body) ∨ AsksWithin ss := by
  simp only [AsksWithin, within_cons]
  constructor
  · rintro ⟨t, ht, rfl | ⟨body, hbody, hwithin⟩ | hwithin⟩
    · exact .inl ht
    · exact .inr (.inl ⟨body, hbody, t, ht, hwithin⟩)
    · exact .inr (.inr ⟨t, ht, hwithin⟩)
  · rintro (hs | ⟨body, hbody, t, ht, hwithin⟩ | ⟨t, ht, hwithin⟩)
    · exact ⟨s, hs, .inl rfl⟩
    · exact ⟨t, ht, .inr (.inl ⟨body, hbody, hwithin⟩)⟩
    · exact ⟨t, ht, .inr (.inr hwithin)⟩

theorem not_guarded_command {c : Command} {source : SourceRef} :
    ¬ Guarded (.command c source) :=
  nofun

theorem not_guarded_loop {count : Nat} {body : List Stmt} {source : SourceRef} :
    ¬ Guarded (.loop count body source) :=
  nofun

theorem not_guarded_call {name : String} {source : SourceRef} : ¬ Guarded (.call name source) :=
  nofun

theorem anyDynamic_iff (ss : List Stmt) : anyDynamic ss = true ↔ AsksWithin ss := by
  -- only conditionals and conditioned loops ask, and a counted loop does through its body
  induction ss using blockInduction with
  | nil => simp [anyDynamic, AsksWithin, not_within_nil]
  | command c source ss ih =>
      rw [asksWithin_cons, ← ih]
      simp [anyDynamic, isDynamic, blocks, not_guarded_command]
  | loop count body source ss ihbody ih =>
      rw [asksWithin_cons, ← ih]
      simp [anyDynamic, isDynamic, blocks, not_guarded_loop, ihbody]
  | ifThen condition consequent source ss _ _ =>
      exact iff_of_true rfl (asksWithin_cons.mpr (.inl .ifThen))
  | ifElse condition consequent alternate source ss _ _ _ =>
      exact iff_of_true rfl (asksWithin_cons.mpr (.inl .ifElse))
  | whileDo condition body source ss _ _ =>
      exact iff_of_true rfl (asksWithin_cons.mpr (.inl .whileDo))
  | call name source ss ih =>
      rw [asksWithin_cons, ← ih]
      simp [anyDynamic, isDynamic, blocks, not_guarded_call]

end Stmt

/-- An `if` or a `while` stands somewhere in a program, in a function that is called or not. -/
def Program.Asks (p : Program) : Prop :=
  Stmt.AsksWithin p.main ∨ ∃ f ∈ p.functions, Stmt.AsksWithin f.body

namespace Script

/-- What can be reached from a block stands in it or in a function. -/
theorem Reaches.within {functions : List FunctionDef} {ss : List Stmt} {target : Stmt}
    (h : Reaches functions ss target) :
    target.Within ss ∨ ∃ f ∈ functions, target.Within f.body := by
  induction h with
  | here hmem => exact .inl (.here hmem)
  | inside hmem henters _ ih =>
      rcases ih with hwithin | hfunction
      · cases henters with
        | loop => exact .inl (.inside hmem (List.mem_singleton_self _) hwithin)
        | call hbody =>
            obtain ⟨f, hf, rfl⟩ := Option.map_eq_some_iff.mp hbody
            exact .inr ⟨f, List.mem_of_find?_eq_some hf, hwithin⟩
      · exact .inr hfunction

/-! ## What a program says of itself -/

/-- The headers of a program are the texts of its script: each of them once, in the order of the
script among the main statements and in every function, and so line by line. -/
structure Traced (tokens : List Token) (p : Program) : Prop where
  all : (Stmt.sourcesIn p.main ++ p.functions.flatMap FunctionDef.sources).Perm
    (Token.textSources tokens)
  main : (Stmt.sourcesIn p.main).Sublist (Token.textSources tokens)
  function : ∀ f ∈ p.functions, f.sources.Sublist (Token.textSources tokens)
  mainLines : (Stmt.sourcesIn p.main).Pairwise (·.line ≤ ·.line)
  functionLines : ∀ f ∈ p.functions, f.sources.Pairwise (·.line ≤ ·.line)

/-- The metadata of a program is true of it. -/
structure Truthful (p : Program) : Prop where
  dynamic : p.metadata.hasDynamicControlFlow = true ↔ p.Asks
  count : p.metadata.staticCommandCount = none ↔
    ∃ s, Reaches p.functions p.main s ∧ s.Guarded
  dynamic_of_count : p.metadata.staticCommandCount = none →
    p.metadata.hasDynamicControlFlow = true
  label : p.metadata.countLabel ≠ "— commands"

theorem traced_of_spells {source : Source} {p : Program}
    (h : Spells (Token.ofSource source) p) : Traced (Token.ofSource source) p where
  all := h.derived.sources
  main := h.derived.sublist_main
  function := h.derived.sublist_function
  mainLines := (Token.pairwise_textSources source).sublist h.derived.sublist_main
  functionLines f hf :=
    (Token.pairwise_textSources source).sublist (h.derived.sublist_function f hf)

section Metadata

variable {tokens : List Token} {p : Program}

theorem Spells.count_eq_none_iff (h : Spells tokens p) :
    p.metadata.staticCommandCount = none ↔ ∃ s, Reaches p.functions p.main s ∧ s.Guarded := by
  rw [← commandCount_eq_none_iff h.calls, h.count, Except.ok.injEq]

theorem Spells.dynamic_iff (h : Spells tokens p) :
    p.metadata.hasDynamicControlFlow = true ↔ p.Asks := by
  have hanywhere : (Stmt.anyDynamic p.main ||
      p.functions.any fun f => Stmt.anyDynamic f.body) = true ↔ p.Asks := by
    simp [Program.Asks, Stmt.anyDynamic_iff]
  rw [h.dynamic, Bool.or_eq_true, hanywhere, Option.isNone_iff_eq_none, h.count_eq_none_iff]
  refine or_iff_left_of_imp ?_
  -- the flag is set as well where there is no count, but then an `if` or a `while` is there
  rintro ⟨s, hreach, hguarded⟩
  rcases hreach.within with hmain | ⟨f, hf, hwithin⟩
  · exact .inl ⟨s, hguarded, hmain⟩
  · exact .inr ⟨f, hf, s, hguarded, hwithin⟩

theorem Spells.dynamic_of_count (h : Spells tokens p)
    (hcount : p.metadata.staticCommandCount = none) :
    p.metadata.hasDynamicControlFlow = true := by
  rw [h.dynamic, hcount]
  simp

end Metadata

/-- Only a program without a count and without an `if` or a `while` would show a dash. -/
theorem countLabel_ne_dash {m : Metadata}
    (h : m.staticCommandCount = none → m.hasDynamicControlFlow = true) :
    m.countLabel ≠ "— commands" := by
  unfold Metadata.countLabel
  split
  · decide
  · next n _ _ =>
      intro hlabel
      have htext : n.repr.toList ++ " commands".toList = '—' :: " commands".toList := by
        have hchars := congrArg String.toList hlabel
        rw [String.toList_append] at hchars
        exact hchars
      cases hdigits : n.repr.toList with
      | nil => exact Text.repr_ne_nil n hdigits
      | cons c cs =>
          rw [hdigits, List.cons_append] at htext
          -- a number does not start with a dash
          have hdigit : c.isDigit = true := Text.isDigit_of_mem_repr (hdigits ▸ List.mem_cons_self ..)
          rw [List.head_eq_of_cons_eq htext] at hdigit
          cases hdigit
  · next hcount =>
      rw [if_pos (h hcount)]
      decide

/-- **A program keeps every statement of its script, and its metadata is true.**  The headers of its
statements and functions are the texts of the script, each once and in order.  The flag tells
whether an `if` or a `while` stands anywhere, and the count is missing exactly if one can be
reached; so the label of the count never shows a dash.

Lines are counted in words of 32 bits, which the text must not be too long for. -/
theorem traced_and_truthful_of_read (text : String) (p : Program) (h : read text = .ok p) :
    Traced (Token.ofSource (.ofString text)) p ∧ Truthful p := by
  have hspells := ofTokens_eq_ok_iff.mp h
  exact ⟨traced_of_spells hspells, hspells.dynamic_iff, hspells.count_eq_none_iff,
    hspells.dynamic_of_count, countLabel_ne_dash hspells.dynamic_of_count⟩

/-- A chain of conditions in a function that is never called, and a counted loop. -/
theorem traced_and_truthful_of_read_uncalled_chain :
    let script := "\n".intercalate ["moveForward()", "func look() \x7b",
      "if isBlocked \x7b turnLeft() \x7d else if isOnGem \x7b", "collectGem() \x7d else \x7b",
      "turnRight() \x7d", "\x7d", "for 2 times \x7b moveForward() \x7d"]
    ∃ p, read script = .ok p ∧
      Stmt.sourcesIn p.main = [⟨1, "moveForward()"⟩, ⟨7, "for 2 times"⟩, ⟨7, "moveForward()"⟩] ∧
      p.functions.map FunctionDef.sources = [[⟨2, "func look()"⟩, ⟨3, "if isBlocked"⟩,
        ⟨3, "turnLeft()"⟩, ⟨3, "if isOnGem"⟩, ⟨4, "collectGem()"⟩, ⟨5, "turnRight()"⟩]] ∧
      p.metadata = { staticCommandCount := some 3, hasDynamicControlFlow := true } ∧
      Traced (Token.ofSource (.ofString script)) p ∧ Truthful p := by
  intro script
  have heval : (read script).toOption.map (fun p => (Stmt.sourcesIn p.main,
      p.functions.map FunctionDef.sources, p.metadata)) =
      some ([⟨1, "moveForward()"⟩, ⟨7, "for 2 times"⟩, ⟨7, "moveForward()"⟩],
        [[⟨2, "func look()"⟩, ⟨3, "if isBlocked"⟩, ⟨3, "turnLeft()"⟩, ⟨3, "if isOnGem"⟩,
          ⟨4, "collectGem()"⟩, ⟨5, "turnRight()"⟩]],
        { staticCommandCount := some 3, hasDynamicControlFlow := true }) := by
    decide +kernel
  obtain ⟨p, hp, heval⟩ := Option.map_eq_some_iff.mp heval
  replace hp := eq_ok_of_toOption hp
  simp only [Prod.mk.injEq] at heval
  obtain ⟨hmain, hfunctions, hmetadata⟩ := heval
  exact ⟨p, hp, hmain, hfunctions, hmetadata, traced_and_truthful_of_read script p hp⟩

end Script

end GemGrid
