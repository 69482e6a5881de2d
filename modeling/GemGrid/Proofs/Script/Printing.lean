import GemGrid.Proofs.Condition.RoundTrip
import GemGrid.Proofs.Script.Programs
import GemGrid.Proofs.Script.Tokens

/-!
# Printed programs are read back

Every program of the language can be written, and what is written is read as the program it was
written from, with source references to the printed lines.

The way back is the grammar.  Each header of the layout is recognised for what it is
(`callHeader_call` and its siblings), so the tokens of a laid out statement derive that statement,
placed at its line (`Stmt.ReadBack`).  One lemma for each kind of statement takes this from the
blocks inside to the statement, and `readBack_of_writable` puts them together.

`Printable` says which programs these are.  A called function must not be named `elseif`, in any
letter case, because a line `elseif()` starts like an `else if`.
-/

namespace GemGrid

open Text

/-! ## Headers are recognised -/

namespace Script

theorem callHeader_call {name : String} (hname : isName name.toList = true) :
    CallHeader (Layout.call name).toList name.toList := by
  rw [Layout.toList_call]
  have hblank := Token.not_blank_of_call hname
  -- a call has no blank, and every keyword needs one behind it
  have hguard : ∀ keyword text, ¬ GuardHeader keyword (name.toList ++ ['(', ')']) text := by
    intro keyword text h
    generalize name.toList ++ ['(', ')'] = cs at h hblank
    obtain @⟨word, gap, rest, -, hgap, hblanks, -⟩ := h
    obtain ⟨c, hc⟩ := List.exists_mem_of_ne_nil gap hgap
    exact Bool.eq_false_iff.mp (hblank c (by simp [hc])) (hblanks c hc)
  refine ⟨hguard "if", hguard "while", ?_, ?_, ?_, Script.isNameChar_of_isName hname, ?_⟩
  · rintro ⟨word, c, rest, heq, -, hc⟩
    exact Bool.eq_false_iff.mp (hblank c (by simp [heq])) hc
  · rintro ⟨c, rest, heq, hc⟩
    exact Bool.eq_false_iff.mp (hblank c (by simp [heq])) hc
  · exact (Token.trimmed_of_isName hname).nonempty
  · rw [List.filter_eq_self]
    intro c hc
    simp [hblank c hc]

theorem functionShape_function {name : String} (hname : isName name.toList = true) :
    FunctionShape (Layout.function name).toList name.toList := by
  have htext : (Layout.function name).toList =
      "func".toList ++ ([' '] ++ (name.toList ++ ([] ++ '(' :: ([] ++ [')'])))) := by
    simp [Layout.function, Layout.call]
  rw [htext]
  exact .intro (by simp) (List.forall_mem_singleton.mpr (by decide)) hname (by simp) (by simp)

/-- The header of a guard is recognised, and so is its condition. -/
theorem exists_guardHeader {keyword : String} (h : keyword = "if" ∨ keyword = "while")
    (condition : Condition) :
    ∃ text, GuardHeader keyword (Layout.guard keyword condition).toList text ∧
      Condition.parse text = .ok condition := by
  have htext : (Layout.guard keyword condition).toList =
      keyword.toList ++ ([' '] ++ condition.render.toList) := by
    simp [Layout.guard]
  have hkeyword : sameWord keyword keyword.toList = true := by
    rcases h with rfl | rfl <;> decide
  have hfeed : '\n' ∉ condition.render.toList := by
    intro hmem
    exact absurd (condition.render_plain '\n' hmem) (by decide)
  refine ⟨trim condition.render.toList, ?_, ?_⟩
  · rw [htext]
    exact .intro hkeyword (by simp) (List.forall_mem_singleton.mpr (by decide))
      condition.render_trimmed.nonempty hfeed
  · rw [condition.render_trimmed.trim_eq, Condition.parse, Condition.scan_render]
    exact Condition.ofTokens_tokens condition

theorem loopHeader_loop (count : Nat) : LoopHeader (Layout.loop count).toList := by
  refine ⟨"for".toList, ' ', count.repr.toList ++ " times".toList, ?_, by decide, by decide⟩
  simp [Layout.loop]

theorem loopCount_loop {count : Nat} (hpos : 0 < count) (hmax : count ≤ max64) :
    loopCount (Layout.loop count).toList = .ok count := by
  have htext : (Layout.loop count).toList =
      "for".toList ++ ' ' :: (count.repr.toList ++ ' ' :: "times".toList) := by
    simp [Layout.loop]
  have hdigits : ∀ c ∈ count.repr.toList, c.isDigit = true := fun c hc => isDigit_of_mem_repr hc
  -- the three words of the header, cut at its two blanks
  have hwords : words (Layout.loop count).toList =
      ["for".toList, count.repr.toList, "times".toList] := by
    rw [htext, words, pieces_append (eq_false_of_any (by decide)) (by decide),
      pieces_append (fun c hc => isBlank_of_isDigit (hdigits c hc)) (by decide),
      pieces_eq_self (eq_false_of_any (by decide))]
    simp
  have htimes : timesDigits? (Layout.loop count).toList = some count.repr.toList := by
    have hall : count.repr.toList.all Char.isDigit = true := List.all_eq_true.mpr hdigits
    have hfor : sameWord "for" "for".toList = true := by decide
    have hunit : foldsTo "times" "times".toList = true := by decide
    simp only [timesDigits?, hwords, hall, hfor, hunit]
    rfl
  rw [loopCount, htimes]
  simp only [digitsUpTo?_repr hmax]
  obtain ⟨n, rfl⟩ := Nat.exists_eq_add_one.mpr hpos
  rfl

/-! ## Statements are read back -/

/-- No statements start with an `else` when what follows them does not. -/
theorem Derives.head_ne_otherwise {ts rest : List Token} {ss : List Stmt}
    (h : Derives ts (.statements ss) rest) (hrest : ∀ t ∈ rest.head?, t.kind ≠ .otherwise) :
    ∀ t ∈ ts.head?, t.kind ≠ .otherwise := by
  cases h with
  | nil => exact hrest
  | cons hs _ =>
      obtain ⟨content, line, behind, rfl, -⟩ := hs.exists_text
      simp

end Script

namespace Stmt

open Script (Derives)

/-- The lines of a statement hold nothing that is taken away, and their tokens derive the statement
at its place. -/
structure ReadBack (s : Stmt) : Prop where
  code : ∀ line ∈ s.lines, ∀ c ∈ line.toList, Token.isCode c = true
  derives : ∀ (n : Nat) (rest : List Token), (∀ t ∈ rest.head?, t.kind ≠ .otherwise) →
    Derives (Token.ofLayout n s.lines ++ rest) (.statement (s.placed n)) rest

theorem code_linesIn {ss : List Stmt} (h : ∀ s ∈ ss, ReadBack s) :
    ∀ line ∈ linesIn ss, ∀ c ∈ line.toList, Token.isCode c = true := by
  induction ss with
  | nil => simp [linesIn]
  | cons s ss ih =>
      obtain ⟨hs, hss⟩ := List.forall_mem_cons.mp h
      rw [linesIn]
      exact List.forall_mem_append.mpr ⟨hs.code, ih hss⟩

theorem derives_statements {ss : List Stmt} (h : ∀ s ∈ ss, ReadBack s) (n : Nat)
    {rest : List Token} (hrest : ∀ t ∈ rest.head?, t.kind ≠ .otherwise) :
    Derives (Token.ofLayout n (linesIn ss) ++ rest) (.statements (placedIn n ss)) rest := by
  induction ss generalizing n with
  | nil => exact .nil
  | cons s ss ih =>
      obtain ⟨hs, hss⟩ := List.forall_mem_cons.mp h
      have hmore := ih hss (n + s.lines.length)
      rw [linesIn, Token.ofLayout_append, List.append_assoc, placedIn]
      exact .cons (hs.derives n _ (hmore.head_ne_otherwise hrest)) hmore

/-! ### Blocks -/

theorem code_block {header : String} (hheader : Token.Single header.toList) {lines : List String}
    (h : ∀ line ∈ lines, ∀ c ∈ line.toList, Token.isCode c = true) :
    ∀ line ∈ Layout.block header lines, ∀ c ∈ line.toList, Token.isCode c = true := by
  rw [Layout.block, List.forall_mem_cons, List.forall_mem_append, List.forall_mem_singleton]
  exact ⟨Token.code_opening hheader, h, Token.code_closing⟩

theorem ofLayout_block {header : String} (hheader : Token.Single header.toList) (n : Nat)
    (lines : List String) (rest : List Token) :
    Token.ofLayout n (Layout.block header lines) ++ rest =
      ⟨.text header, n⟩ :: ⟨.lbrace, n⟩ ::
        (Token.ofLayout (n + 1) lines ++ ⟨.rbrace, n + 1 + lines.length⟩ :: rest) := by
  rw [Layout.block, Token.ofLayout, Token.ofCode_opening hheader, Token.ofLayout_append]
  simp [Token.ofLayout, Token.ofCode_closing]

theorem derives_block {body : List Stmt} (h : ∀ s ∈ body, ReadBack s) (n line line' : Nat)
    (rest : List Token) :
    Derives (⟨.lbrace, line⟩ :: (Token.ofLayout n (linesIn body) ++ ⟨.rbrace, line'⟩ :: rest))
      (.block (placedIn n body)) rest :=
  .block (derives_statements h n (by simp))

/-! ### One lemma for each kind of statement -/

theorem readBack_command (c : Command) (source : SourceRef) : ReadBack (.command c source) := by
  have hname : isName c.name.toList = true := by cases c <;> decide
  have helse : sameWord "elseif" c.name.toList = false := by cases c <;> decide
  have hcommand : Command.ofName? (String.ofList c.name.toList) = some c := by cases c <;> decide
  have hsingle := Token.single_call hname helse
  constructor
  · rw [lines, List.forall_mem_singleton]
    exact Token.code_header hsingle
  · intro n rest _
    rw [lines, Token.ofLayout, Token.ofCode_header hsingle, placed]
    exact .command (Script.callHeader_call hname) hcommand

theorem readBack_call {name : String} (source : SourceRef) (hname : isName name.toList = true)
    (hcommand : Command.ofName? name = none) (helse : sameWord "elseif" name.toList = false) :
    ReadBack (.call name source) := by
  have hsingle := Token.single_call hname helse
  constructor
  · rw [lines, List.forall_mem_singleton]
    exact Token.code_header hsingle
  · intro n rest _
    have hcall : Derives (⟨.text (Layout.call name), n⟩ :: rest)
        (.statement (.call (String.ofList name.toList) ⟨n, Layout.call name⟩)) rest :=
      .call (Script.callHeader_call hname) (by rwa [String.ofList_toList])
    rw [String.ofList_toList] at hcall
    rw [lines, Token.ofLayout, Token.ofCode_header hsingle, placed]
    exact hcall

theorem readBack_loop {count : Nat} {body : List Stmt} (source : SourceRef) (hpos : 0 < count)
    (hmax : count ≤ max64) (hbody : ∀ s ∈ body, ReadBack s) :
    ReadBack (.loop count body source) := by
  have hsingle := Token.single_loop count
  constructor
  · rw [lines]
    exact code_block hsingle (code_linesIn hbody)
  · intro n rest _
    rw [lines, ofLayout_block hsingle, placed]
    exact .loop (Script.loopHeader_loop count) (Script.loopCount_loop hpos hmax)
      (derives_block hbody ..)

theorem readBack_whileDo (condition : Condition) {body : List Stmt} (source : SourceRef)
    (hbody : ∀ s ∈ body, ReadBack s) : ReadBack (.whileDo condition body source) := by
  have hsingle := Token.single_guard (.inr rfl) condition
  obtain ⟨text, hheader, hparse⟩ := Script.exists_guardHeader (.inr rfl) condition
  constructor
  · rw [lines]
    exact code_block hsingle (code_linesIn hbody)
  · intro n rest _
    rw [lines, ofLayout_block hsingle, placed]
    exact .whileDo hheader hparse (derives_block hbody ..)

theorem readBack_ifThen (condition : Condition) {consequent : List Stmt} (source : SourceRef)
    (hconsequent : ∀ s ∈ consequent, ReadBack s) :
    ReadBack (.ifThen condition consequent source) := by
  have hsingle := Token.single_guard (.inl rfl) condition
  obtain ⟨text, hheader, hparse⟩ := Script.exists_guardHeader (.inl rfl) condition
  constructor
  · rw [lines]
    exact code_block hsingle (code_linesIn hconsequent)
  · intro n rest hrest
    rw [lines, ofLayout_block hsingle, placed]
    exact .ofConditional (.conditional hheader hparse (derives_block hconsequent ..)
      (.plain hrest))

theorem readBack_ifElse (condition : Condition) {consequent alternate : List Stmt}
    (source : SourceRef) (hconsequent : ∀ s ∈ consequent, ReadBack s)
    (halternate : ∀ s ∈ alternate, ReadBack s) :
    ReadBack (.ifElse condition consequent alternate source) := by
  have hsingle := Token.single_guard (.inl rfl) condition
  obtain ⟨text, hheader, hparse⟩ := Script.exists_guardHeader (.inl rfl) condition
  constructor
  · have hlines := List.forall_mem_append.mpr ⟨code_linesIn hconsequent,
      List.forall_mem_cons.mpr ⟨Token.code_otherwise, code_linesIn halternate⟩⟩
    rw [lines]
    exact code_block hsingle hlines
  · intro n rest _
    rw [lines, ofLayout_block hsingle, Token.ofLayout_append, Token.ofLayout,
      Token.ofCode_otherwise, List.append_assoc, List.append_assoc, placed]
    -- the closing brace of the first block shares its line with the `else` and the second brace
    exact .ofConditional (.conditional hheader hparse (derives_block hconsequent ..)
      (.elseBlock (derives_block halternate ..)))

/-! ### Blocks that can be written -/

mutual

/-- The counts of the loops inside a statement. -/
def loopCounts : Stmt → List Nat
  | .command .. => []
  | .loop count body _ => count :: loopCountsIn body
  | .ifThen _ consequent _ => loopCountsIn consequent
  | .ifElse _ consequent alternate _ => loopCountsIn consequent ++ loopCountsIn alternate
  | .whileDo _ body _ => loopCountsIn body
  | .call .. => []

/-- The counts of the loops inside a list of statements. -/
def loopCountsIn : List Stmt → List Nat
  | [] => []
  | s :: ss => s.loopCounts ++ loopCountsIn ss

end

/-- A block whose loops and calls can be written. -/
structure Writable (ss : List Stmt) : Prop where
  counts : ∀ count ∈ loopCountsIn ss, 0 < count ∧ count ≤ max64
  names : ∀ site ∈ callsIn ss, isName site.name.toList = true
  unreserved : ∀ site ∈ callsIn ss, Command.ofName? site.name = none
  noElseIf : ∀ site ∈ callsIn ss, sameWord "elseif" site.name.toList = false

theorem Writable.mono {ss ss' : List Stmt} (h : Writable ss)
    (hcounts : loopCountsIn ss' ⊆ loopCountsIn ss) (hcalls : callsIn ss' ⊆ callsIn ss) :
    Writable ss' where
  counts count hcount := h.counts count (hcounts hcount)
  names site hsite := h.names site (hcalls hsite)
  unreserved site hsite := h.unreserved site (hcalls hsite)
  noElseIf site hsite := h.noElseIf site (hcalls hsite)

theorem Writable.tail {s : Stmt} {ss : List Stmt} (h : Writable (s :: ss)) : Writable ss := by
  refine h.mono ?_ ?_
  · rw [loopCountsIn]
    exact List.subset_append_right ..
  · rw [callsIn]
    exact List.subset_append_right ..

theorem readBack_of_writable {ss : List Stmt} (h : Writable ss) : ∀ s ∈ ss, ReadBack s := by
  induction ss using blockInduction with
  | nil => exact fun s hs => absurd hs List.not_mem_nil
  | command c source ss ih =>
      exact List.forall_mem_cons.mpr ⟨readBack_command c source, ih h.tail⟩
  | loop count body source ss ihbody ih =>
      -- what holds of the counts and the calls of the block holds of those of the body
      have hbody : Writable body :=
        h.mono (by simp [loopCountsIn, loopCounts]) (by simp [callsIn, calls])
      obtain ⟨hpos, hmax⟩ := h.counts count (by simp [loopCountsIn, loopCounts])
      exact List.forall_mem_cons.mpr ⟨readBack_loop source hpos hmax (ihbody hbody), ih h.tail⟩
  | ifThen condition consequent source ss ihthen ih =>
      have hthen : Writable consequent :=
        h.mono (by simp [loopCountsIn, loopCounts]) (by simp [callsIn, calls])
      exact List.forall_mem_cons.mpr ⟨readBack_ifThen condition source (ihthen hthen), ih h.tail⟩
  | ifElse condition consequent alternate source ss ihthen ihelse ih =>
      have hthen : Writable consequent :=
        h.mono (by simp [loopCountsIn, loopCounts]) (by simp [callsIn, calls])
      have helse : Writable alternate :=
        h.mono (by simp [loopCountsIn, loopCounts]) (by simp [callsIn, calls])
      exact List.forall_mem_cons.mpr
        ⟨readBack_ifElse condition source (ihthen hthen) (ihelse helse), ih h.tail⟩
  | whileDo condition body source ss ihbody ih =>
      have hbody : Writable body :=
        h.mono (by simp [loopCountsIn, loopCounts]) (by simp [callsIn, calls])
      exact List.forall_mem_cons.mpr ⟨readBack_whileDo condition source (ihbody hbody), ih h.tail⟩
  | call name source ss ih =>
      have hsite : ⟨name, source⟩ ∈ callsIn (.call name source :: ss) := by simp [callsIn, calls]
      exact List.forall_mem_cons.mpr ⟨readBack_call source (h.names _ hsite)
        (h.unreserved _ hsite) (h.noElseIf _ hsite), ih h.tail⟩

end Stmt

/-! ## Programs are read back -/

namespace Script

/-- A program that can be written. -/
structure Printable (main : List Stmt) (functions : List FunctionDef) : Prop where
  nonempty : main ≠ []
  names : ∀ f ∈ functions, isName f.name.toList = true
  unreserved : ∀ f ∈ functions, Command.ofName? f.name = none
  distinct : (functions.map (·.name)).Nodup
  calls : checkCalls main functions = .ok ()
  counts : ∀ block ∈ main :: functions.map (·.body), ∀ count ∈ Stmt.loopCountsIn block,
    1 ≤ count ∧ count ≤ max64
  noElseIf : ∀ block ∈ main :: functions.map (·.body), ∀ site ∈ Stmt.callsIn block,
    sameWord "elseif" site.name.toList = false

variable {main : List Stmt} {functions : List FunctionDef}

theorem body?_of_mem (hdistinct : (functions.map (·.name)).Nodup) {f : FunctionDef}
    (hf : f ∈ functions) : FunctionDef.body? functions f.name = some f.body := by
  obtain ⟨before, after, rfl⟩ := List.append_of_mem hf
  rw [List.map_append, List.map_cons, List.nodup_append] at hdistinct
  exact body?_of_first fun hmem => hdistinct.2.2 _ hmem _ (List.mem_cons_self ..) rfl

/-- Every call of the program is one of a function, so its name can be written. -/
theorem Printable.writable (h : Printable main functions) :
    ∀ block ∈ main :: functions.map (·.body), Stmt.Writable block := by
  intro block hblock
  -- every name that is called is the name of a function
  have hdefined : ∀ site ∈ Stmt.callsIn block, ∃ f ∈ functions, f.name = site.name := by
    intro site hsite
    rw [Stmt.mem_callsIn] at hsite
    refine List.mem_map.mp ((checkCalls_eq_ok_iff.mp h.calls).defined site ?_)
    rcases List.mem_cons.mp hblock with rfl | hbody
    · exact .inl hsite
    · obtain ⟨f, hf, rfl⟩ := List.mem_map.mp hbody
      exact .inr ⟨f.name, f.body, body?_of_mem h.distinct hf, hsite⟩
  refine ⟨h.counts block hblock, fun site hsite => ?_, fun site hsite => ?_, h.noElseIf block hblock⟩
  · obtain ⟨f, hf, hname⟩ := hdefined site hsite
    exact hname ▸ h.names f hf
  · obtain ⟨f, hf, hname⟩ := hdefined site hsite
    exact hname ▸ h.unreserved f hf

theorem derivesScript_of_statements {ts : List Token} (h : Derives ts (.statements main) []) :
    DerivesScript ts main [] := by
  induction main generalizing ts with
  | nil =>
      cases h
      exact .nil
  | cons s ss ih =>
      cases h with
      | cons hs hmore => exact .statement hs (ih hmore)

theorem derivesScript_function {f : FunctionDef} (hname : isName f.name.toList = true)
    (hbody : ∀ s ∈ f.body, s.ReadBack) (n : Nat) {ts : List Token}
    (hmore : DerivesScript ts main functions) :
    DerivesScript (Token.ofLayout n f.lines ++ ts) main
      ({ f with body := Stmt.placedIn (n + 1) f.body, source := ⟨n, Layout.function f.name⟩ } ::
        functions) := by
  have hblock := Stmt.derives_block hbody (n + 1) n (n + 1 + (Stmt.linesIn f.body).length) ts
  have hfunction : DerivesScript (⟨.text (Layout.function f.name), n⟩ :: _) _ _ :=
    .function (functionShape_function hname) hblock hmore
  rw [String.ofList_toList, ← Stmt.ofLayout_block (Token.single_function hname)] at hfunction
  exact hfunction

/-- The tokens of the lines of a program derive the program at its place. -/
theorem derivesScript_layout (hmain : ∀ s ∈ main, s.ReadBack)
    (hnames : ∀ f ∈ functions, isName f.name.toList = true)
    (hbodies : ∀ f ∈ functions, ∀ s ∈ f.body, s.ReadBack) (n : Nat) :
    DerivesScript (Token.ofLayout n (layout main functions))
      (Stmt.placedIn (n + (functions.flatMap FunctionDef.lines).length) main)
      (FunctionDef.placed n functions) := by
  induction functions generalizing n with
  | nil =>
      have hstatements : Derives (Token.ofLayout n (Stmt.linesIn main) ++ [])
          (.statements (Stmt.placedIn n main)) [] :=
        Stmt.derives_statements hmain n (by simp)
      rw [List.append_nil] at hstatements
      exact derivesScript_of_statements hstatements
  | cons f functions ih =>
      obtain ⟨hname, hnames⟩ := List.forall_mem_cons.mp hnames
      obtain ⟨hbody, hbodies⟩ := List.forall_mem_cons.mp hbodies
      -- the lines of the first function, then the others behind them
      have hmore := ih hnames hbodies (n + f.lines.length)
      have hlayout : layout main (f :: functions) = f.lines ++ layout main functions := by
        rw [layout, List.flatMap_cons, List.append_assoc, layout]
      have hlength : n + ((f :: functions).flatMap FunctionDef.lines).length =
          n + f.lines.length + (functions.flatMap FunctionDef.lines).length := by
        rw [List.flatMap_cons, List.length_append, Nat.add_assoc]
      rw [hlayout, hlength, Token.ofLayout_append]
      exact derivesScript_function hname hbody n hmore

theorem code_layout (hmain : ∀ s ∈ main, s.ReadBack)
    (hnames : ∀ f ∈ functions, isName f.name.toList = true)
    (hbodies : ∀ f ∈ functions, ∀ s ∈ f.body, s.ReadBack) :
    ∀ line ∈ layout main functions, ∀ c ∈ line.toList, Token.isCode c = true := by
  refine List.forall_mem_append.mpr ⟨fun line hline => ?_, Stmt.code_linesIn hmain⟩
  obtain ⟨f, hf, hline⟩ := List.mem_flatMap.mp hline
  exact Stmt.code_block (Token.single_function (hnames f hf)) (Stmt.code_linesIn (hbodies f hf))
    line hline

theorem layout_ne_nil (hmain : main ≠ []) : layout main functions ≠ [] := by
  obtain ⟨s, ss, rfl⟩ := List.exists_cons_of_ne_nil hmain
  cases s <;> simp [layout, Stmt.linesIn, Stmt.lines, Layout.block]

/-- What is in order stays so with other source references. -/
theorem Printable.exists_spells (h : Printable main functions) {tokens : List Token}
    {main' : List Stmt} {functions' : List FunctionDef}
    (hderives : DerivesScript tokens main' functions') (hmain : Stmt.bareIn main' = Stmt.bareIn main)
    (hfunctions : functions'.map FunctionDef.bare = functions.map FunctionDef.bare) :
    ∃ p, Spells tokens p ∧ p.main = main' ∧ p.functions = functions' := by
  have hnames := FunctionDef.names_of_bare hfunctions
  -- without their sources both programs have the same statements, names and calls
  have hnonempty : main' ≠ [] := by
    rintro rfl
    obtain ⟨s, ss, rfl⟩ := List.exists_cons_of_ne_nil h.nonempty
    rw [Stmt.bareIn, Stmt.bareIn] at hmain
    cases hmain
  have hunreserved : ∀ f ∈ functions', Command.ofName? f.name = none := by
    intro f hf
    have hmem : f.name ∈ functions'.map (·.name) := List.mem_map.mpr ⟨f, hf, rfl⟩
    rw [hnames] at hmem
    obtain ⟨g, hg, hname⟩ := List.mem_map.mp hmem
    exact hname ▸ h.unreserved g hg
  have hcalls : checkCalls main' functions' = .ok () := by
    rw [checkCalls_eq_ok_iff, ← wellCalled_bare_iff, hmain, hfunctions, wellCalled_bare_iff]
    exact checkCalls_eq_ok_iff.mp h.calls
  exact hderives.exists_spells hnonempty (by rw [hnames]; exact h.distinct) hunreserved hcalls

/-- **Printed programs are read back.**  A program that can be written is read from its text, the
same up to source references, and these are the printed lines and headers.

Lines are counted in words of 32 bits, which the text must not be too long for. -/
theorem read_text (h : Printable main functions) :
    ∃ p, read (text main functions) = .ok p ∧
      p.main = Stmt.placedIn (1 + (functions.flatMap FunctionDef.lines).length) main ∧
      p.functions = FunctionDef.placed 1 functions ∧
      Stmt.bareIn p.main = Stmt.bareIn main ∧
      p.functions.map FunctionDef.bare = functions.map FunctionDef.bare := by
  have hmain : ∀ s ∈ main, s.ReadBack :=
    Stmt.readBack_of_writable (h.writable main (List.mem_cons_self ..))
  have hbodies : ∀ f ∈ functions, ∀ s ∈ f.body, s.ReadBack := fun f hf =>
    Stmt.readBack_of_writable
      (h.writable f.body (List.mem_cons_of_mem _ (List.mem_map.mpr ⟨f, hf, rfl⟩)))
  have hderives := derivesScript_layout hmain h.names hbodies 1
  have hplaced := Stmt.bareIn_placedIn main (1 + (functions.flatMap FunctionDef.lines).length)
  have hdefined := FunctionDef.bare_placed functions 1
  obtain ⟨p, hspells, hp, hfunctions⟩ := h.exists_spells hderives hplaced hdefined
  -- the printed text has no comments, so its lines are its code
  have htokens : Token.ofSource (.ofString (text main functions)) =
      Token.ofLayout 1 (layout main functions) :=
    Token.ofSource_text (layout_ne_nil h.nonempty) (code_layout hmain h.names hbodies) rfl
  refine ⟨p, ?_, hp, hfunctions, by rw [hp, hplaced], by rw [hfunctions, hdefined]⟩
  rw [read, htokens]
  exact ofTokens_eq_ok_iff.mpr hspells

/-- Functions named like keywords, one named `elseif` that is not called, an `if` as the only
statement behind an `else`, and empty blocks. -/
theorem read_text_keyword_names :
    let nowhere : SourceRef := ⟨0, ""⟩
    let functions : List FunctionDef :=
      [⟨"else", [], nowhere⟩, ⟨"if", [.call "else" nowhere], nowhere⟩,
        ⟨"func", [.loop max64 [.call "if" nowhere] nowhere], nowhere⟩, ⟨"elseif", [], nowhere⟩]
    let main : List Stmt :=
      [.call "func" nowhere,
        .ifElse (.predicate .isBlocked) []
          [.ifThen (.not (.predicate .isOnGem)) [.command .turnLeft nowhere] nowhere] nowhere,
        .ifElse (.predicate .isOnGem) [] [] nowhere]
    layout main functions =
        ["func else() \x7b", "\x7d", "func if() \x7b", "else()", "\x7d", "func func() \x7b",
          "for 18446744073709551615 times \x7b", "if()", "\x7d", "\x7d", "func elseif() \x7b",
          "\x7d", "func()", "if isBlocked \x7b", "\x7d else \x7b", "if !isOnGem \x7b",
          "turnLeft()", "\x7d", "\x7d", "if isOnGem \x7b", "\x7d else \x7b", "\x7d"] ∧
      Printable main functions ∧
      ∃ p, read (text main functions) = .ok p ∧ Stmt.bareIn p.main = Stmt.bareIn main ∧
        p.functions.map FunctionDef.bare = functions.map FunctionDef.bare ∧
        p.main.map Stmt.source = [⟨13, "func()"⟩, ⟨14, "if isBlocked"⟩, ⟨20, "if isOnGem"⟩] ∧
        p.functions.map (·.source) = [⟨1, "func else()"⟩, ⟨3, "func if()"⟩, ⟨6, "func func()"⟩,
          ⟨11, "func elseif()"⟩] := by
  intro nowhere functions main
  have hprintable : Printable main functions :=
    { nonempty := by simp [main]
      names := by decide
      unreserved := by decide
      distinct := by decide
      calls := by decide +kernel
      counts := by decide +kernel
      noElseIf := by decide +kernel }
  obtain ⟨p, hread, hmain, hfunctions, hbareMain, hbare⟩ := read_text hprintable
  refine ⟨by decide +kernel, hprintable, p, hread, hbareMain, hbare, ?_, ?_⟩
  · rw [hmain]
    decide +kernel
  · rw [hfunctions]
    decide +kernel

end Script

end GemGrid
