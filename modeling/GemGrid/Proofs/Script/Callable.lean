import GemGrid.Proofs.Script.Printing
import GemGrid.Proofs.Script.Relexing

/-!
# Which functions can be called

A function may have any name that is no command, and the keywords are no exception: a header needs
a blank behind its keyword, so a line `if()` or `for()` is a call.  The one name that cannot be
called is `elseif`, in any letter case.  The line `elseif()` is taken apart into an `else` and a
piece that starts with `if`, because the end of the `if` may be a parenthesis, and the `else` has no
`if` before it (`read_callScript_elseIf`).  All other names can be called
(`callable_of_not_elseIf`).
-/

namespace GemGrid

open Text

/-! ## A call that is taken apart -/

namespace Token

/-- A call of `elseif` reads as an `else if`. -/
theorem exists_elseIf_call {name : List Char} (h : sameWord "elseif" name = true) :
    ∃ rest, elseIf? (name ++ ['(', ')']) = some rest := by
  have hletters : name.map Char.toLower = "else".toList ++ "if".toList := eq_of_beq h
  obtain ⟨word, keyword, rfl, hword, hkeyword⟩ := List.map_eq_append_iff.mp hletters
  have helseIf : ElseIf (word ++ ([] ++ (keyword ++ ['(', ')']))) (trim (keyword ++ ['(', ')'])) :=
    .intro (beq_iff_eq.mpr hword) (by simp) (beq_iff_eq.mpr hkeyword) (by simp [isNameChar])
  rw [List.nil_append, ← List.append_assoc] at helseIf
  exact ⟨_, elseIf?_eq_some_iff.mpr helseIf⟩

/-- The line of such a call is an `else` and a text behind it. -/
theorem exists_ofCode_elseIf_call {name : List Char} (hname : isName name = true)
    (h : sameWord "elseif" name = true) (n : Nat) :
    ∃ rest, ofCode n (name ++ ['(', ')']) = [⟨.otherwise, n⟩, ⟨.text rest, n⟩] := by
  obtain ⟨rest, hrest⟩ := exists_elseIf_call h
  have hbrace : ∀ c ∈ name ++ ['(', ')'], ¬ (c = '\x7b' ∨ c = '\x7d') := fun c hc =>
    not_brace_of_isPlain (plain_call hname c hc)
  obtain ⟨hleft, hright⟩ := ne_brace_of_forall hbrace
  refine ⟨String.ofList rest, ?_⟩
  rw [ofCode, linePieces_eq_self hbrace (trimmed_call hname), List.flatMap_singleton]
  simp only [kindsOf, if_neg hleft, if_neg hright, not_else_call, hrest]
  rfl

end Token

namespace Script

/-! ## The script of a call -/

/-- A script that defines a function of a name and calls it. -/
def callScript (name : String) : String :=
  "\n".intercalate ["func " ++ name ++ "() \x7b", "turnLeft()", "\x7d", name ++ "()"]

/-- The script is accepted, with the one function and its call. -/
def Callable (name : String) : Prop :=
  ∃ p, read (callScript name) = .ok p ∧
    p.functions = [
      { name, body := [.command .turnLeft ⟨2, "turnLeft()"⟩],
        source := ⟨1, "func " ++ name ++ "()"⟩ }] ∧
    p.main = [.call name ⟨4, name ++ "()"⟩]

/-- The function that the script defines. -/
def callee (name : String) : FunctionDef :=
  { name, body := [.command .turnLeft default], source := default }

/-- The lines of the script. -/
def callLines (name : String) : List String :=
  (callee name).lines ++ [Layout.call name]

theorem callScript_eq (name : String) :
    callScript name = String.ofList (['\n'].intercalate ((callLines name).map String.toList)) := by
  have hlines : callLines name =
      ["func " ++ name ++ "() \x7b", "turnLeft()", "\x7d", name ++ "()"] := by
    simp [callLines, callee, FunctionDef.lines, Stmt.linesIn, Stmt.lines, Layout.block,
      Layout.opening, Layout.function, Layout.call, Layout.closing, Command.name,
      String.append_assoc]
  rw [hlines, callScript, ← String.toList_inj, String.toList_ofList]
  simp

theorem readBack_callee (name : String) : ∀ s ∈ (callee name).body, s.ReadBack :=
  List.forall_mem_singleton.mpr (Stmt.readBack_command .turnLeft default)

section Names

variable {name : String}

theorem verbatim_callLines (hname : isName name.toList = true) :
    ∀ line ∈ callLines name, Token.Verbatim line.toList := by
  intro line hline
  apply Token.verbatim_of_code
  rcases List.mem_append.mp hline with hline | hline
  · exact Stmt.code_block (Token.single_function hname) (Stmt.code_linesIn (readBack_callee name))
      line hline
  · obtain rfl := List.mem_singleton.mp hline
    intro c hc
    rw [Layout.toList_call] at hc
    rw [Token.isCode, Token.plain_call hname c hc, Bool.true_or, Bool.true_or]

/-- The tokens of the function, and those of the line with the call. -/
theorem ofSource_callScript (hname : isName name.toList = true) :
    Token.ofSource (.ofString (callScript name)) =
      Token.ofLayout 1 (callee name).lines ++ Token.ofLayout 4 [Layout.call name] := by
  rw [callScript_eq, Token.ofSource_verbatim (by simp [callLines]) (verbatim_callLines hname) rfl,
    callLines, Token.ofLayout_append]
  rfl

/-! ## Names that can be called -/

theorem callsIn_callee (name : String) (source source' : SourceRef) {caller : String}
    {body : List Stmt}
    (h : FunctionDef.body? [{ name, body := [.command .turnLeft source], source := source' }]
      caller = some body) : Stmt.callsIn body = [] := by
  obtain ⟨-, rfl⟩ : name = caller ∧ [.command .turnLeft source] = body := by
    simpa [FunctionDef.body?, List.find?_singleton] using h
  simp [Stmt.callsIn, Stmt.calls]

/-- The call has its function, and that calls nothing. -/
theorem wellCalled_call (name : String) (site source source' : SourceRef) :
    WellCalled [.call name site]
      [{ name, body := [.command .turnLeft source], source := source' }] := by
  constructor
  · rintro called (hcalled | ⟨caller, body, hcaller, hcalled⟩)
    · rw [← Stmt.mem_callsIn] at hcalled
      obtain rfl : called = ⟨name, site⟩ := by simpa [Stmt.callsIn, Stmt.calls] using hcalled
      exact List.mem_singleton_self name
    · rw [← Stmt.mem_callsIn, callsIn_callee name source source' hcaller] at hcalled
      cases hcalled
  · intro caller hcycle
    obtain ⟨callee, ⟨body, place, hcaller, hcalled⟩, -⟩ := Relation.TransGen.head'_iff.mp hcycle
    rw [← Stmt.mem_callsIn, callsIn_callee name source source' hcaller] at hcalled
    cases hcalled

theorem callable_of_not_elseIf (hname : isName name.toList = true)
    (hcommand : Command.ofName? name = none) (helse : sameWord "elseif" name.toList = false) :
    Callable name := by
  have hderives : DerivesScript (Token.ofSource (.ofString (callScript name)))
      [.call name ⟨4, Layout.call name⟩]
      [{ name, body := [.command .turnLeft ⟨2, Layout.call Command.turnLeft.name⟩],
         source := ⟨1, Layout.function name⟩ }] := by
    -- the script is the definition, then the call on its fourth line
    have hcall := (Stmt.readBack_call default hname hcommand helse).derives 4 [] (by simp)
    have hscript := derivesScript_function (f := callee name) hname (readBack_callee name) 1
      (.statement hcall .nil)
    rw [ofSource_callScript hname]
    simpa [Stmt.lines, Stmt.placed, Stmt.placedIn, callee] using hscript
  obtain ⟨p, hspells, hmain, hfunctions⟩ := hderives.exists_spells (by simp) (by simp)
    (by simpa using hcommand) (checkCalls_eq_ok_iff.mpr (wellCalled_call ..))
  refine ⟨p, ofTokens_eq_ok_iff.mpr hspells, ?_, hmain⟩
  rw [hfunctions, Layout.function, Layout.call, Layout.call, String.append_assoc]
  rfl

/-! ## The name that cannot be called -/

/-- An `else` in front of a statement is a mishap. -/
theorem items_of_otherwise {n k line : Nat} {known : List FunctionDef} {ts : List Token}
    (dynamic : Bool) : items (n + 1) (k + 1) known (⟨.otherwise, line⟩ :: ts) dynamic =
      .error { fault := .strayElse, place := .line line } := by
  have hheader : ¬ isFunctionHeader (Token.text ⟨.otherwise, line⟩).toList = true := by
    show ¬ isFunctionHeader TokenKind.otherwise.render.toList = true
    decide
  rw [items, if_neg hheader]
  rfl

theorem shownLine_callScript (hname : isName name.toList = true) :
    shownLine (.ofString (callScript name)) 4 = ⟨4, name ++ "()"⟩ := by
  have htrimmed : Trimmed (Layout.call name).toList := by
    rw [Layout.toList_call]
    exact Token.trimmed_call hname
  have hlines := Token.lines_verbatim (by simp [callLines]) (verbatim_callLines hname) rfl
  rw [← callScript_eq] at hlines
  have hline : (Source.ofString (callScript name)).line? 4 = some (Layout.call name).toList := by
    rw [Source.line?, hlines]
    rfl
  rw [shownLine, hline, Option.getD_some, htrimmed.trim_eq, String.ofList_toList]
  rfl

/-- A script that goes on with an `else` behind its first function. -/
theorem parse_function_otherwise {content name : String} {line line' : Nat} {body : List Stmt}
    {ts rest : List Token} (hshape : FunctionShape content.toList name.toList)
    (hcommand : Command.ofName? name = none)
    (hblock : Derives ts (.block body) (⟨.otherwise, line'⟩ :: rest)) :
    parse (⟨.text content, line⟩ :: ts) =
      .error { fault := .strayElse, place := .line line' } := by
  have hdefined : definedName [] ⟨.text content, line⟩ = .ok name :=
    definedName_eq_ok_iff.mpr ⟨⟨name.toList, hshape, String.ofList_toList.symm⟩, hcommand, by simp⟩
  have hdefinition : definition (ts.length + 1) [] ⟨.text content, line⟩ ts false =
      .ok (({ name, body, source := ⟨line, content⟩ }, ⟨.otherwise, line'⟩ :: rest),
        false || Stmt.anyDynamic body) :=
    definition_eq_ok_iff.mpr ⟨hdefined, hblock.block_eq (Nat.le_succ _) false, rfl⟩
  have hheader : isFunctionHeader content.toList = true :=
    isFunctionHeader_eq_true_iff.mpr hshape.functionHeader
  obtain ⟨k, hk⟩ : ∃ k, ts.length = k + 1 :=
    Nat.exists_eq_add_one.mpr (Nat.lt_of_le_of_lt (Nat.zero_le _) hblock.length_le)
  have hitems : items (ts.length + 1) (ts.length + 1) [] (⟨.text content, line⟩ :: ts) false =
      .error { fault := .strayElse, place := .line line' } := by
    -- behind the definition the main program begins with the `else`
    rw [items_of_definition hheader hdefinition, hk, items_of_otherwise]
  rw [parse, List.length_cons, StateT.run, hitems]
  rfl

/-- The line `elseif()` is an `else` without an `if`. -/
theorem read_callScript_elseIf (hname : isName name.toList = true)
    (hcommand : Command.ofName? name = none) (helse : sameWord "elseif" name.toList = true) :
    read (callScript name) = .error { fault := .strayElse, site := some ⟨4, name ++ "()"⟩ } := by
  -- the name is cut at `else`, and what is left of the line is a text of its own
  obtain ⟨rest, hrest⟩ := Token.exists_ofCode_elseIf_call hname helse 4
  have hcall : Token.ofLayout 4 [Layout.call name] = [⟨.otherwise, 4⟩, ⟨.text rest, 4⟩] := by
    simp [Token.ofLayout, Layout.toList_call, hrest]
  have hblock := Stmt.derives_block (readBack_callee name) 2 1 3
    [⟨.otherwise, 4⟩, ⟨.text rest, 4⟩]
  have hsingle : Token.Single (Layout.function (callee name).name).toList :=
    Token.single_function hname
  have hparse : parse (Token.ofSource (.ofString (callScript name))) =
      .error { fault := .strayElse, place := .line 4 } := by
    rw [ofSource_callScript hname, hcall, FunctionDef.lines, Stmt.ofLayout_block hsingle]
    exact parse_function_otherwise (functionShape_function hname) hcommand hblock
  rw [read, ofTokens, hparse, ← shownLine_callScript hname]
  rfl

/-- **Which functions can be called.**  A function can be called exactly if its name is not
`elseif`, in any letter case; the call of `elseif` is refused as an `else` without an `if`. -/
theorem callable_iff {name : String} (hname : isName name.toList = true)
    (hcommand : Command.ofName? name = none) :
    (Callable name ↔ sameWord "elseif" name.toList = false) ∧
    (sameWord "elseif" name.toList = true → read (callScript name) =
      .error { fault := .strayElse, site := some ⟨4, name ++ "()"⟩ }) := by
  refine ⟨⟨fun hcallable => ?_, callable_of_not_elseIf hname hcommand⟩,
    read_callScript_elseIf hname hcommand⟩
  rw [Bool.eq_false_iff]
  intro helse
  obtain ⟨p, hp, -⟩ := hcallable
  rw [read_callScript_elseIf hname hcommand helse] at hp
  cases hp

/-- A keyword that can be called. -/
theorem callable_iff_while :
    isName "while".toList = true ∧ Command.ofName? "while" = none ∧ Callable "while" := by
  have hname : isName "while".toList = true := by decide
  have hcommand : Command.ofName? "while" = none := by decide
  exact ⟨hname, hcommand, (callable_iff hname hcommand).1.mpr (by decide)⟩

/-- A function may be named `elseif` and cannot be called. -/
theorem not_callable_elseif :
    isName "elseif".toList = true ∧ Command.ofName? "elseif" = none ∧ ¬ Callable "elseif" := by
  have hname : isName "elseif".toList = true := by decide
  have hcommand : Command.ofName? "elseif" = none := by decide
  refine ⟨hname, hcommand, ?_⟩
  rintro ⟨p, hp, -⟩
  rw [read_callScript_elseIf hname hcommand (by decide)] at hp
  cases hp

end Names

end Script

end GemGrid
