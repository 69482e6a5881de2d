import GemGrid.Proofs.Script.CallCheck
import GemGrid.Proofs.Script.Parsing
import GemGrid.Proofs.Script.Unrolling

/-!
# Scripts and their programs

A script is read as a whole: its statements and functions are derived from its tokens, all of which
are used up, and then the program is put in order.

* `items_sound` and `DerivesScript.items_eq` tie the loop over the items of a script to the
  derivations.  The names of the functions are checked on the way, each against those before it,
  which is `Fresh`.  `items_remembers` says what the parser remembers at the end: whether an `if` or
  a `while` stands in the main statements or in a function, in whatever order these were read.
* `Spells tokens p` says everything that makes `p` the program of a list of tokens, and
  `ofTokens_eq_ok_iff` that it is what the parser goes by.
-/

namespace GemGrid.Script

/-! ## Whole scripts -/

/-- Functions that may be defined after the known ones: their names are new, different from each
other, and no commands. -/
structure Fresh (known functions : List FunctionDef) : Prop where
  unreserved : ∀ f ∈ functions, Command.ofName? f.name = none
  distinct : (functions.map (·.name)).Nodup
  new : ∀ f ∈ functions, f.name ∉ known.map (·.name)

theorem fresh_nil (known : List FunctionDef) : Fresh known [] :=
  ⟨by simp, .nil, by simp⟩

theorem fresh_cons {known functions : List FunctionDef} {f : FunctionDef} :
    Fresh known (f :: functions) ↔
      Command.ofName? f.name = none ∧ f.name ∉ known.map (·.name) ∧
        Fresh (known ++ [f]) functions := by
  constructor
  · rintro ⟨hunreserved, hdistinct, hnew⟩
    obtain ⟨hcommand, hunreserved⟩ := List.forall_mem_cons.mp hunreserved
    obtain ⟨hname, hnew⟩ := List.forall_mem_cons.mp hnew
    obtain ⟨hother, hdistinct⟩ := List.nodup_cons.mp hdistinct
    refine ⟨hcommand, hname, hunreserved, hdistinct, fun g hg hmem => ?_⟩
    rw [List.map_append, List.mem_append] at hmem
    rcases hmem with hmem | hmem
    · exact hnew g hg hmem
    · -- a later function of the same name would be no fresh one
      have hsame : g.name = f.name := by simpa using hmem
      exact hother (List.mem_map.mpr ⟨g, hg, hsame⟩)
  · rintro ⟨hcommand, hname, hunreserved, hdistinct, hnew⟩
    refine ⟨List.forall_mem_cons.mpr ⟨hcommand, hunreserved⟩, List.nodup_cons.mpr ⟨?_, hdistinct⟩,
      List.forall_mem_cons.mpr ⟨hname, fun g hg hmem => hnew g hg ?_⟩⟩
    · intro hmem
      obtain ⟨g, hg, hsame⟩ := List.mem_map.mp hmem
      exact hnew g hg (by simp [hsame])
    · rw [List.map_append]
      exact List.mem_append_left _ hmem

theorem any_name_iff {known : List FunctionDef} {name : String} :
    known.any (·.name == name) = true ↔ name ∈ known.map (·.name) := by
  rw [List.any_eq_true, List.mem_map]
  simp only [beq_iff_eq]

theorem definedName_eq_ok_iff {known : List FunctionDef} {content name : String} {line : Nat} :
    definedName known ⟨.text content, line⟩ = .ok name ↔
      (∃ cs, FunctionShape content.toList cs ∧ name = String.ofList cs) ∧
        Command.ofName? name = none ∧ name ∉ known.map (·.name) := by
  unfold definedName
  constructor
  · intro h
    dsimp only at h
    split at h
    · cases h
    · -- the reader asks for the shape, then for commands, then for what is known
      next cs hcs =>
      split at h
      · cases h
      · next hcommand =>
        split at h
        · cases h
        · next hknown =>
          cases h
          refine ⟨⟨cs, functionName?_eq_some_iff.mp hcs, rfl⟩, by simpa using hcommand, ?_⟩
          exact fun hmem => hknown (any_name_iff.mpr hmem)
  · rintro ⟨⟨cs, hshape, rfl⟩, hcommand, hknown⟩
    have hcs : functionName? (Token.text ⟨.text content, line⟩).toList = some cs :=
      functionName?_eq_some_iff.mpr hshape
    have hnew : known.any (·.name == String.ofList cs) = false :=
      Bool.eq_false_iff.mpr fun hany => hknown (any_name_iff.mp hany)
    simp only [hcs, hcommand, hnew]
    rfl

theorem definition_eq_ok_iff {n : Nat} {known : List FunctionDef} {content : String} {line : Nat}
    {ts rest : List Token} {f : FunctionDef} {dynamic dynamic' : Bool} :
    definition n known ⟨.text content, line⟩ ts dynamic = .ok ((f, rest), dynamic') ↔
      definedName known ⟨.text content, line⟩ = .ok f.name ∧
        block (statement n) n ts dynamic = .ok ((f.body, rest), dynamic') ∧
        f.source = { line, text := content } := by
  unfold definition
  constructor
  · intro h
    obtain ⟨name, _, hlift, hbody⟩ := Parsing.exists_of_bind_eq_ok h
    obtain ⟨hname, rfl⟩ := Parsing.liftM_eq_ok_iff.mp hlift
    obtain ⟨⟨body, rest'⟩, _, hblock, hpure⟩ := Parsing.exists_of_bind_eq_ok hbody
    cases hpure
    exact ⟨hname, hblock, rfl⟩
  · rintro ⟨hname, hblock, hsource⟩
    obtain ⟨name, body, source⟩ := f
    subst hsource
    apply Parsing.bind_eq (Parsing.liftM_eq_ok_iff.mpr ⟨hname, rfl⟩)
    exact Parsing.bind_eq hblock rfl

/-- Only a text can be a function header. -/
theorem exists_of_isFunctionHeader {t : Token} (h : isFunctionHeader t.text.toList = true) :
    ∃ content line, t = ⟨.text content, line⟩ := by
  have hsigns : ∀ kind ∈ [TokenKind.lbrace, .rbrace, .otherwise],
      isFunctionHeader kind.render.toList ≠ true := by
    decide
  obtain ⟨kind, line⟩ := t
  cases kind with
  | text content => exact ⟨content, line, rfl⟩
  | lbrace => exact absurd h (hsigns _ (by simp))
  | rbrace => exact absurd h (hsigns _ (by simp))
  | otherwise => exact absurd h (hsigns _ (by simp))

theorem items_sound (n k : Nat) : ∀ {ts : List Token} {known functions : List FunctionDef}
    {main : List Stmt} {dynamic dynamic' : Bool}, ts.length ≤ k →
      items n k known ts dynamic = .ok ((main, functions), dynamic') →
      ∃ defined, functions = known ++ defined ∧ DerivesScript ts main defined ∧
        Fresh known defined := by
  induction k with
  | zero =>
      intro ts known functions main dynamic dynamic' hk h
      obtain rfl := List.length_eq_zero_iff.mp (Nat.le_zero.mp hk)
      cases h
      exact ⟨[], (List.append_nil _).symm, .nil, fresh_nil _⟩
  | succ k ih =>
      intro ts known functions main dynamic dynamic' hk h
      cases ts with
      | nil =>
          cases h
          exact ⟨[], (List.append_nil _).symm, .nil, fresh_nil _⟩
      | cons t ts =>
          rw [items] at h
          split at h
          · next hheader =>
            obtain ⟨content, line, rfl⟩ := exists_of_isFunctionHeader hheader
            obtain ⟨⟨f, rest⟩, _, hf, h⟩ := Parsing.exists_of_bind_eq_ok h
            obtain ⟨hname, hblock, hsource⟩ := definition_eq_ok_iff.mp hf
            obtain ⟨⟨cs, hshape, hcs⟩, hcommand, hnew⟩ := definedName_eq_ok_iff.mp hname
            have hderives := block_sound (statement_sound n) hblock
            -- the block took tokens, so the bound is enough for what is left
            have hrest : rest.length ≤ k :=
              Nat.le_trans (Nat.le_of_lt hderives.length_le) (Nat.le_of_succ_le_succ hk)
            obtain ⟨defined, rfl, hscript, hfresh⟩ := ih hrest h
            refine ⟨f :: defined, by simp, ?_, fresh_cons.mpr ⟨hcommand, hnew, hfresh⟩⟩
            obtain ⟨name, body, source⟩ := f
            subst hsource hcs
            exact .function hshape hderives hscript
          · next hheader =>
            obtain ⟨⟨s, rest⟩, _, hs, h⟩ := Parsing.exists_of_bind_eq_ok h
            obtain ⟨⟨more, functions'⟩, _, hmore, h⟩ := Parsing.exists_of_bind_eq_ok h
            cases h
            have hderives := statement_sound n t ts s rest _ _ (by simpa using hheader) hs
            have hrest : rest.length ≤ k :=
              Nat.le_of_succ_le_succ (Nat.le_trans hderives.length_le hk)
            obtain ⟨defined, rfl, hscript, hfresh⟩ := ih hrest hmore
            exact ⟨defined, rfl, .statement hderives hscript, hfresh⟩

section Items

variable {n k line : Nat} {known functions : List FunctionDef} {content : String}
  {ts rest : List Token} {dynamic between dynamic' : Bool}

theorem items_of_statement {s : Stmt} {main : List Stmt}
    (hheader : isFunctionHeader content.toList = false)
    (hfirst : statement n (⟨.text content, line⟩ :: ts) dynamic = .ok ((s, rest), between))
    (hmore : items n k known rest between = .ok ((main, functions), dynamic')) :
    items n (k + 1) known (⟨.text content, line⟩ :: ts) dynamic =
      .ok ((s :: main, functions), dynamic') := by
  have hfunction : ¬ isFunctionHeader (Token.text ⟨.text content, line⟩).toList = true :=
    Bool.eq_false_iff.mp hheader
  rw [items, if_neg hfunction]
  apply Parsing.bind_eq hfirst
  exact Parsing.bind_eq hmore rfl

theorem items_of_definition {f : FunctionDef} (hheader : isFunctionHeader content.toList = true)
    (hf : definition n known ⟨.text content, line⟩ ts dynamic = .ok ((f, rest), between)) :
    items n (k + 1) known (⟨.text content, line⟩ :: ts) dynamic =
      items n k (known ++ [f]) rest between := by
  have hfunction : isFunctionHeader (Token.text ⟨.text content, line⟩).toList = true := hheader
  rw [items, if_pos hfunction]
  exact Parsing.bind_eq hf rfl

end Items

/-- The items of a script are what its tokens derive, and the memory of the parser takes in each of
them. -/
theorem DerivesScript.items_eq {ts : List Token} {main : List Stmt} {functions : List FunctionDef}
    (h : DerivesScript ts main functions) {n : Nat} :
    ∀ {k : Nat} {known : List FunctionDef}, ts.length ≤ n → ts.length ≤ k → Fresh known functions →
      ∀ dynamic, items n k known ts dynamic = .ok ((main, known ++ functions),
        dynamic || (Stmt.anyDynamic main || functions.any fun f => Stmt.anyDynamic f.body)) := by
  induction h with
  | nil =>
      intro k known _ _ _ dynamic
      rw [List.append_nil, Stmt.anyDynamic, List.any_nil, Bool.or_false, Bool.or_false]
      cases k <;> rfl
  | @statement s _ _ main functions hs _ ih =>
      intro k known hn hk hfresh dynamic
      have hlength : _ + 1 ≤ _ := hs.length_le
      have hfirst := hs.statement_eq hn dynamic
      obtain ⟨content, line, behind, rfl, hheader⟩ := hs.exists_text
      cases k with
      | zero => cases hk
      | succ k =>
          rw [Stmt.anyDynamic, Bool.or_assoc, ← Bool.or_assoc dynamic]
          refine items_of_statement hheader hfirst (ih ?_ ?_ hfresh (dynamic || s.isDynamic))
          · exact Nat.le_trans (Nat.le_of_lt hlength) hn
          · exact Nat.le_of_succ_le_succ (Nat.le_trans hlength hk)
  | @function content line name body main ts rest functions hshape hblock _ ih =>
      intro k known hn hk hfresh dynamic
      obtain ⟨hcommand, hnew, hfresh⟩ := fresh_cons.mp hfresh
      have hlength := Nat.le_of_lt hblock.length_le
      have hname : definedName known ⟨.text content, line⟩ = .ok (String.ofList name) :=
        definedName_eq_ok_iff.mpr ⟨⟨name, hshape, rfl⟩, hcommand, hnew⟩
      cases k with
      | zero => cases hk
      | succ k =>
          have hn := Nat.le_of_succ_le hn
          have hk := Nat.le_of_succ_le_succ hk
          let f : FunctionDef :=
            { name := String.ofList name, body, source := { line, text := content } }
          have hdefinition : definition n known ⟨.text content, line⟩ ts dynamic =
              .ok ((f, rest), dynamic || Stmt.anyDynamic body) :=
            definition_eq_ok_iff.mpr ⟨hname, hblock.block_eq hn dynamic, rfl⟩
          have hheader := isFunctionHeader_eq_true_iff.mpr hshape.functionHeader
          rw [items_of_definition hheader hdefinition,
            ih (Nat.le_trans hlength hn) (Nat.le_trans hlength hk) hfresh, List.append_assoc,
            List.singleton_append, List.any_cons, Bool.or_assoc,
            -- the body was read before the main statements behind it
            Bool.or_left_comm (Stmt.anyDynamic body)]

/-- At the end the parser remembers whether an `if` or a `while` stands anywhere. -/
theorem items_remembers {tokens : List Token} {main : List Stmt} {functions : List FunctionDef}
    {dynamic : Bool}
    (h : items tokens.length tokens.length [] tokens false = .ok ((main, functions), dynamic)) :
    dynamic = (Stmt.anyDynamic main || functions.any fun f => Stmt.anyDynamic f.body) := by
  obtain ⟨defined, rfl, hderived, hfresh⟩ := items_sound _ _ (Nat.le_refl _) h
  rw [hderived.items_eq (Nat.le_refl _) (Nat.le_refl _) hfresh false] at h
  simpa using h.symm

/-! ## Uniqueness -/

/-- A list of tokens has at most one reading as a script. -/
theorem DerivesScript.unique {ts : List Token} {main main' : List Stmt}
    {functions functions' : List FunctionDef} (h : DerivesScript ts main functions)
    (h' : DerivesScript ts main' functions') : main' = main ∧ functions' = functions := by
  induction h generalizing main' functions' with
  | nil =>
      cases h' with
      | nil => exact ⟨rfl, rfl⟩
      | statement hs _ => exact absurd hs.length_le (by simp [Phrase.least])
  | statement hs hmore ih =>
      cases h' with
      | nil => exact absurd hs.length_le (by simp [Phrase.least])
      | statement hs' hmore' =>
          obtain ⟨rfl, rfl⟩ := hs.statement_unique hs'
          obtain ⟨rfl, rfl⟩ := ih hmore'
          exact ⟨rfl, rfl⟩
      -- a function header starts no statement
      | function hshape _ _ => exact absurd hshape hs.not_functionShape
  | function hshape hblock _ ih =>
      cases h' with
      | statement hs _ => exact absurd hshape hs.not_functionShape
      | function hshape' hblock' hmore' =>
          obtain ⟨rfl, rfl⟩ := hblock.block_unique hblock'
          obtain ⟨rfl, rfl⟩ := ih hmore'
          have hname := functionName?_of_functionShape hshape'
          rw [functionName?_of_functionShape hshape] at hname
          cases hname
          exact ⟨rfl, rfl⟩

/-! ## Programs -/

/-- A program that a list of tokens stands for. -/
structure Spells (tokens : List Token) (p : Program) : Prop where
  derived : DerivesScript tokens p.main p.functions
  main : p.main ≠ []
  distinct : (p.functions.map (·.name)).Nodup
  unreserved : ∀ f ∈ p.functions, Command.ofName? f.name = none
  calls : checkCalls p.main p.functions = .ok ()
  count : commandCount p.main p.functions = .ok p.metadata.staticCommandCount
  dynamic : p.metadata.hasDynamicControlFlow = (Stmt.anyDynamic p.main ||
    (p.functions.any fun f => Stmt.anyDynamic f.body) || p.metadata.staticCommandCount.isNone)

theorem assemble_eq_ok_iff {main : List Stmt} {functions : List FunctionDef} {dynamic : Bool}
    {p : Program} :
    assemble main functions dynamic = .ok p ↔
      p.main = main ∧ p.functions = functions ∧ checkCalls main functions = .ok () ∧
        commandCount main functions = .ok p.metadata.staticCommandCount ∧
        p.metadata.hasDynamicControlFlow =
          (dynamic || p.metadata.staticCommandCount.isNone) := by
  unfold assemble
  constructor
  · intro h
    obtain ⟨_, hchecked, h⟩ := exists_of_bind_eq_ok h
    obtain ⟨count, hcount, h⟩ := exists_of_bind_eq_ok h
    cases h
    exact ⟨rfl, rfl, eq_ok_of_mapError hchecked, eq_ok_of_mapError hcount, rfl⟩
  · obtain ⟨main', functions', count, dynamic'⟩ := p
    rintro ⟨rfl, rfl, hchecked, hcount, hdynamic⟩
    dsimp only at hcount hdynamic
    simp only [hchecked, hcount, Except.mapError, bind, Except.bind, hdynamic]
    rfl

theorem spells_of_parse {tokens : List Token} {p : Program} (h : parse tokens = .ok p) :
    Spells tokens p := by
  unfold parse at h
  split at h
  · cases h
  · obtain ⟨⟨⟨main, functions⟩, dynamic⟩, hitems, h⟩ := exists_of_bind_eq_ok h
    dsimp only at h
    split at h
    · cases h
    · next hmain =>
      obtain ⟨rfl, rfl, hcalls, hcount, hdynamic⟩ := assemble_eq_ok_iff.mp h
      -- the metadata are made from the memory, which says what stands in the tree
      rw [items_remembers hitems] at hdynamic
      obtain ⟨defined, hdefined, hderived, hfresh⟩ := items_sound _ _ (Nat.le_refl _) hitems
      rw [List.nil_append] at hdefined
      subst hdefined
      exact ⟨hderived, by simpa using hmain, hfresh.distinct, hfresh.unreserved, hcalls, hcount,
        hdynamic⟩

theorem parse_of_spells {tokens : List Token} {p : Program} (h : Spells tokens p) :
    parse tokens = .ok p := by
  -- no program has an empty main, so there was a token to read
  have htokens : ¬ tokens.isEmpty = true := by
    intro hempty
    have hderived := h.derived
    rw [List.isEmpty_iff.mp hempty] at hderived
    exact h.main (hderived.unique .nil).1.symm
  have hfresh : Fresh [] p.functions := ⟨h.unreserved, h.distinct, by simp⟩
  have hitems := h.derived.items_eq (Nat.le_refl _) (Nat.le_refl _) hfresh false
  rw [List.nil_append, Bool.false_or] at hitems
  have hassemble : assemble p.main p.functions
      (Stmt.anyDynamic p.main || p.functions.any fun f => Stmt.anyDynamic f.body) = .ok p :=
    assemble_eq_ok_iff.mpr ⟨rfl, rfl, h.calls, h.count, h.dynamic⟩
  have hmain : ¬ p.main.isEmpty = true := by simpa using h.main
  rw [parse, if_neg htokens, StateT.run, hitems, ok_bind]
  dsimp only
  rw [if_neg hmain, hassemble]

theorem ofTokens_eq_ok_iff {source : Source} {tokens : List Token} {p : Program} :
    ofTokens source tokens = .ok p ↔ Spells tokens p := by
  constructor
  · exact fun h => spells_of_parse (eq_ok_of_mapError h)
  · intro h
    rw [ofTokens, parse_of_spells h]
    rfl

/-- A reading that is in order stands for a program. -/
theorem DerivesScript.exists_spells {tokens : List Token} {main : List Stmt}
    {functions : List FunctionDef} (h : DerivesScript tokens main functions) (hmain : main ≠ [])
    (hdistinct : (functions.map (·.name)).Nodup)
    (hunreserved : ∀ f ∈ functions, Command.ofName? f.name = none)
    (hcalls : checkCalls main functions = .ok ()) :
    ∃ p, Spells tokens p ∧ p.main = main ∧ p.functions = functions := by
  obtain ⟨count, hcount⟩ := exists_commandCount (checkCalls_eq_ok_iff.mp hcalls)
  let dynamic := Stmt.anyDynamic main || functions.any fun f => Stmt.anyDynamic f.body
  exact ⟨{ main, functions, metadata := ⟨count, dynamic || count.isNone⟩ },
    ⟨h, hmain, hdistinct, hunreserved, hcalls, hcount, rfl⟩, rfl, rfl⟩

/-- **The parser accepts exactly its grammar.**  It returns a program exactly if the tokens spell
it; there is one for the statements and functions that the tokens derive exactly if these are in
order; and the tokens derive nothing else.  The tokens are arbitrary; those of a script have 32-bit
words for their lines (`Token.line_le_max32`). -/
theorem parser_accepts_grammar (source : Source) (tokens : List Token) :
    (∀ p, ofTokens source tokens = .ok p ↔ Spells tokens p) ∧
    (∀ main functions,
      (∃ p, ofTokens source tokens = .ok p ∧ p.main = main ∧ p.functions = functions) ↔
        DerivesScript tokens main functions ∧ main ≠ [] ∧ (functions.map (·.name)).Nodup ∧
          (∀ f ∈ functions, Command.ofName? f.name = none) ∧
          checkCalls main functions = .ok ()) ∧
    ∀ main functions main' functions', DerivesScript tokens main functions →
      DerivesScript tokens main' functions' → main' = main ∧ functions' = functions := by
  refine ⟨fun p => ofTokens_eq_ok_iff, fun main functions => ⟨?_, ?_⟩,
    fun _ _ _ _ h h' => h.unique h'⟩
  · rintro ⟨p, hp, rfl, rfl⟩
    have h := ofTokens_eq_ok_iff.mp hp
    exact ⟨h.derived, h.main, h.distinct, h.unreserved, h.calls⟩
  · rintro ⟨hderived, hmain, hdistinct, hunreserved, hcalls⟩
    obtain ⟨p, hspells, hp⟩ := hderived.exists_spells hmain hdistinct hunreserved hcalls
    exact ⟨p, ofTokens_eq_ok_iff.mpr hspells, hp⟩

/-- A chain of guards, a loop in a loop and a function behind its call. -/
theorem parser_accepts_grammar_every_form :
    let word (content : String) : Token := ⟨.text content, 1⟩
    let left : Token := ⟨.lbrace, 1⟩
    let right : Token := ⟨.rbrace, 1⟩
    let otherwise : Token := ⟨.otherwise, 1⟩
    let tokens := [word "IF isOnGem", left, word "collectGem()", right, otherwise,
      word "if !isBlocked", left, right, otherwise, left, word "h o p ()", right,
      word "while isBlocked", left, word "turnLeft()", right, word "for i in 1 ..< 3", left,
      word "FOR 2 times", left, word "hop()", right, right, word "func hop ( )", left,
      word "moveForward()", right]
    ∃ p, ofTokens (.ofString "") tokens = .ok p ∧ Spells tokens p ∧ p.main.length = 3 ∧
      p.functions.map (·.name) = ["hop"] ∧
      ∀ main functions, DerivesScript tokens main functions →
        main = p.main ∧ functions = p.functions := by
  intro word left right otherwise tokens
  have heval : ((ofTokens (.ofString "") tokens).toOption.map fun p =>
      (p.main.length, p.functions.map (·.name))) = some (3, ["hop"]) := by
    decide +kernel
  obtain ⟨p, hp, heval⟩ := Option.map_eq_some_iff.mp heval
  simp only [Prod.mk.injEq] at heval
  replace hp := eq_ok_of_toOption hp
  obtain ⟨hspells, _, hunique⟩ := parser_accepts_grammar (.ofString "") tokens
  have hspelled := (hspells p).mp hp
  exact ⟨p, hp, hspelled, heval.1, heval.2, fun main functions h =>
    hunique p.main p.functions main functions hspelled.derived h⟩

end GemGrid.Script
