import GemGrid.Proofs.Results
import GemGrid.Proofs.Script.Grammar
import GemGrid.Script.Parser

/-!
# The parser and the grammar

The parser of statements returns exactly what the rules of the grammar derive.

* `statement_sound`: what it returns is derived, whatever bound it was given.  The pieces of the
  parser are written for an arbitrary parser of statements, and so are the lemmas about them.
* `Derives.parses`: what is derived is what it returns, if the bound is not smaller than the number
  of tokens.  The induction is on the derivation, and `Parses` says for each kind of phrase which
  piece of the parser is meant.  The same induction follows the memory of the parser through every
  rule: afterwards it is set exactly if it was set before or the phrase is dynamic.

As the parser is a function, tokens have at most one reading: `Derives.statement_unique`.
-/

namespace GemGrid.Script

/-! ## Steps with a memory -/

namespace Parsing

variable {α β : Type} {x : Parsing α} {f : α → Parsing β} {dynamic dynamic' : Bool}

/-- A step that succeeds, and what comes after it. -/
theorem bind_eq {a : α} {r : Except Mishap (β × Bool)} (hx : x dynamic = .ok (a, dynamic'))
    (hf : f a dynamic' = r) : (x >>= f) dynamic = r := by
  change (x dynamic >>= fun p => f p.1 p.2) = r
  rw [hx]
  exact hf

/-- Steps that succeed one after the other do so one by one. -/
theorem exists_of_bind_eq_ok {b : β} (h : (x >>= f) dynamic = .ok (b, dynamic')) :
    ∃ a between, x dynamic = .ok (a, between) ∧ f a between = .ok (b, dynamic') := by
  obtain ⟨⟨a, between⟩, hx, hf⟩ := GemGrid.exists_of_bind_eq_ok h
  exact ⟨a, between, hx, hf⟩

/-- A step that does not look at the memory leaves it as it is. -/
theorem liftM_eq_ok_iff {y : Except Mishap α} {a : α} :
    (liftM y : Parsing α) dynamic = .ok (a, dynamic') ↔ y = .ok a ∧ dynamic' = dynamic := by
  cases y with
  | error m =>
      constructor
      · intro h
        cases h
      · rintro ⟨h, _⟩
        cases h
  | ok b =>
      constructor
      · intro h
        cases h
        exact ⟨rfl, rfl⟩
      · rintro ⟨hb, rfl⟩
        cases hb
        rfl

end Parsing

theorem noteDynamic_eq (dynamic : Bool) : noteDynamic dynamic = .ok ((), true) :=
  rfl

/-! ## Soundness -/

/-- A parser of statements returns only what is derived, where no function header comes first. -/
def Sound (parser : List Token → Parsing (Piece Stmt)) : Prop :=
  ∀ t ts s rest dynamic dynamic', isFunctionHeader t.text.toList = false →
    parser (t :: ts) dynamic = .ok ((s, rest), dynamic') → Derives (t :: ts) (.statement s) rest

section Soundness

variable {parser : List Token → Parsing (Piece Stmt)} {dynamic dynamic' : Bool}
  (hparser : Sound parser)

include hparser

theorem statements_sound (n : Nat) : ∀ {ts rest : List Token} {ss : List Stmt} {dynamic : Bool},
    statements parser n ts dynamic = .ok ((ss, rest), dynamic') →
      Derives ts (.statements ss) rest := by
  induction n with
  | zero =>
      intro ts rest ss dynamic h
      cases h
      exact .nil
  | succ n ih =>
      intro ts rest ss dynamic h
      cases ts with
      | nil =>
          cases h
          exact .nil
      | cons t ts =>
          rw [statements] at h
          split at h
          · -- the phrase ends at a closing brace
            cases h
            exact .nil
          · split at h
            · cases h
            · next hheader =>
              obtain ⟨⟨first, mid⟩, _, hfirst, h⟩ := Parsing.exists_of_bind_eq_ok h
              obtain ⟨⟨more, rest'⟩, _, hmore, h⟩ := Parsing.exists_of_bind_eq_ok h
              cases h
              have hstatement := hparser t ts first mid _ _ (by simpa using hheader) hfirst
              exact .cons hstatement (ih hmore)

theorem block_sound {n : Nat} {ts rest : List Token} {body : List Stmt}
    (h : block parser n ts dynamic = .ok ((body, rest), dynamic')) :
    Derives ts (.block body) rest := by
  unfold block at h
  split at h
  · obtain ⟨⟨body', behind⟩, _, hbody, h⟩ := Parsing.exists_of_bind_eq_ok h
    -- the statements end where they end; only a closing brace is taken with the block
    cases behind with
    | nil => cases h
    | cons t behind =>
        obtain ⟨kind, line⟩ := t
        cases kind with
        | rbrace =>
            cases h
            exact .block (statements_sound hparser n hbody)
        | _ => cases h
  · cases h

theorem alternative_sound {n : Nat} {header : Token} {ts rest : List Token}
    {alternate : Option (List Stmt)}
    (h : alternative parser n header ts dynamic = .ok ((alternate, rest), dynamic')) :
    Derives ts (.alternative alternate) rest := by
  unfold alternative at h
  split at h
  · obtain ⟨⟨body, rest'⟩, _, hbody, h⟩ := Parsing.exists_of_bind_eq_ok h
    cases h
    exact .elseBlock (block_sound hparser hbody)
  · next content line behind =>
    split at h
    · next hheader =>
      obtain ⟨⟨inner, rest'⟩, _, hinner, h⟩ := Parsing.exists_of_bind_eq_ok h
      cases h
      -- an `if` is no function header, so the inner statement is a conditional
      obtain ⟨text, htext⟩ := Option.isSome_iff_exists.mp hheader
      have hguard := guardText?_eq_some_iff.mp htext
      have hfunction := isFunctionHeader_eq_false (by simp) hguard.isSome_afterWord?
      have hstatement := hparser ⟨.text content, line⟩ behind inner rest _ _ hfunction hinner
      exact .elseIf (hstatement.conditional_of_header hguard)
    · cases h
  · cases h
  · next hnone =>
    cases h
    refine .plain fun t ht hkind => ?_
    obtain ⟨behind, rfl⟩ := List.head?_eq_some_iff.mp ht
    exact hnone t.line behind (by rw [← hkind])

end Soundness

theorem guardCondition_eq_ok_iff {keyword : String} {line : Nat} {text : List Char}
    {condition : Condition} :
    guardCondition keyword line text = .ok condition ↔ Condition.parse text = .ok condition := by
  unfold guardCondition
  cases text with
  | nil => constructor <;> (intro h; cases h)
  | cons c text =>
      rw [if_neg (by simp)]
      cases Condition.parse (c :: text) with
      | error e => simp
      | ok condition' => simp

theorem Derives.of_commandOrCall {content : String} {line : Nat} {ts : List Token} {s : Stmt}
    (hif : guardText? "if" content.toList = none)
    (hwhile : guardText? "while" content.toList = none)
    (hloop : isLoopHeader content.toList = false)
    (hfunction : isFunctionHeader content.toList = false)
    (h : commandOrCall ⟨.text content, line⟩ content.toList = .ok s) :
    Derives (⟨.text content, line⟩ :: ts) (.statement s) ts := by
  unfold commandOrCall at h
  split at h
  · cases h
  · next name hname =>
    -- no keyword was in front, so what is called is a command or a function
    have hcall : CallHeader content.toList name :=
      callHeader_iff.mpr ⟨hif, hwhile, hloop, hfunction, hname⟩
    split at h
    · next c hcommand =>
      cases h
      exact .command hcall hcommand
    · next hnone =>
      cases h
      exact .call hcall hnone

/-- A text is tested for one header after the other. -/
theorem text_sound {n line : Nat} {content : String} {ts rest : List Token} {s : Stmt}
    {dynamic dynamic' : Bool} (hparser : Sound (statement n))
    (hfunction : isFunctionHeader content.toList = false)
    (h : statement (n + 1) (⟨.text content, line⟩ :: ts) dynamic = .ok ((s, rest), dynamic')) :
    Derives (⟨.text content, line⟩ :: ts) (.statement s) rest := by
  rw [statement] at h
  dsimp only at h
  -- in the reader's order: `if`, `while`, a loop, and a call when no keyword is in front
  rcases hif : guardText? "if" content.toList with _ | text
  · rcases hwhile : guardText? "while" content.toList with _ | text
    · rw [hif, hwhile] at h
      dsimp only at h
      split at h
      · next hloop =>
        rcases hcount : loopCount content.toList with e | count
        · rw [hcount] at h
          cases h
        · rw [hcount] at h
          obtain ⟨⟨body, rest'⟩, _, hblock, h⟩ := Parsing.exists_of_bind_eq_ok h
          cases h
          exact .loop (isLoopHeader_eq_true_iff.mp hloop) hcount (block_sound hparser hblock)
      · next hloop =>
        obtain ⟨s', _, hlift, h⟩ := Parsing.exists_of_bind_eq_ok h
        have hcall := (Parsing.liftM_eq_ok_iff.mp hlift).1
        cases h
        exact .of_commandOrCall hif hwhile (Bool.eq_false_iff.mpr hloop) hfunction hcall
    · rw [hif, hwhile] at h
      -- the guard is remembered before its condition is read
      obtain ⟨_, _, _, h⟩ := Parsing.exists_of_bind_eq_ok h
      obtain ⟨condition, _, hlift, h⟩ := Parsing.exists_of_bind_eq_ok h
      have hcondition := (Parsing.liftM_eq_ok_iff.mp hlift).1
      obtain ⟨⟨body, rest'⟩, _, hblock, h⟩ := Parsing.exists_of_bind_eq_ok h
      cases h
      exact .whileDo (guardText?_eq_some_iff.mp hwhile) (guardCondition_eq_ok_iff.mp hcondition)
        (block_sound hparser hblock)
  · rw [hif] at h
    obtain ⟨_, _, _, h⟩ := Parsing.exists_of_bind_eq_ok h
    obtain ⟨condition, _, hlift, h⟩ := Parsing.exists_of_bind_eq_ok h
    have hcondition := (Parsing.liftM_eq_ok_iff.mp hlift).1
    obtain ⟨⟨consequent, mid⟩, _, hblock, h⟩ := Parsing.exists_of_bind_eq_ok h
    obtain ⟨⟨alternate, rest'⟩, _, halternative, h⟩ := Parsing.exists_of_bind_eq_ok h
    cases h
    exact .ofConditional (.conditional (guardText?_eq_some_iff.mp hif)
      (guardCondition_eq_ok_iff.mp hcondition) (block_sound hparser hblock)
      (alternative_sound hparser halternative))

/-- **What the parser returns is derived.** -/
theorem statement_sound (n : Nat) : Sound (statement n) := by
  induction n with
  | zero =>
      intro t ts s rest _ _ _ h
      cases h
  | succ n ih =>
      rintro ⟨kind, line⟩ ts s rest _ _ hfunction h
      cases kind with
      | text content => exact text_sound ih hfunction h
      | _ => cases h

/-! ## Completeness -/

/-- What the parser of a kind of phrase returns under a bound, and what it remembers then.  A list
of statements is followed by a closing brace or nothing. -/
def Parses (n : Nat) (ts : List Token) (dynamic : Bool) : Phrase → List Token → Prop
  | .conditional s, rest => statement n ts dynamic = .ok ((s, rest), dynamic || s.isDynamic)
  | .statement s, rest => statement n ts dynamic = .ok ((s, rest), dynamic || s.isDynamic)
  | .statements ss, rest => (∀ t ∈ rest.head?, t.kind = .rbrace) → ∀ k, ts.length ≤ k →
      statements (statement n) k ts dynamic = .ok ((ss, rest), dynamic || Stmt.anyDynamic ss)
  | .block body, rest =>
      block (statement n) n ts dynamic = .ok ((body, rest), dynamic || Stmt.anyDynamic body)
  | .alternative alternate, rest => ∀ header, alternative (statement n) n header ts dynamic =
      .ok ((alternate, rest), dynamic || alternate.any Stmt.anyDynamic)

section Statements

variable {n line : Nat} {content : String} {text : List Char} {condition : Condition}
  {ts mid rest : List Token} {dynamic between dynamic' : Bool}

theorem liftM_guardCondition (keyword : String) (hcondition : Condition.parse text = .ok condition) :
    (liftM (guardCondition keyword line text) : Parsing Condition) dynamic =
      .ok (condition, dynamic) :=
  Parsing.liftM_eq_ok_iff.mpr ⟨guardCondition_eq_ok_iff.mpr hcondition, rfl⟩

/-- The memory is set at the header, before the block is read. -/
theorem statement_conditional {consequent : List Stmt} {alternate : Option (List Stmt)}
    (hheader : GuardHeader "if" content.toList text)
    (hcondition : Condition.parse text = .ok condition)
    (hblock : block (statement n) n ts true = .ok ((consequent, mid), between))
    (halternative : ∀ header,
      alternative (statement n) n header mid between = .ok ((alternate, rest), dynamic')) :
    statement (n + 1) (⟨.text content, line⟩ :: ts) dynamic =
      .ok ((.ifWith condition consequent alternate { line, text := content }, rest),
        dynamic') := by
  rw [statement]
  dsimp only
  rw [guardText?_of_guardHeader hheader]
  apply Parsing.bind_eq (noteDynamic_eq dynamic)
  apply Parsing.bind_eq (liftM_guardCondition "if" hcondition)
  apply Parsing.bind_eq hblock
  exact Parsing.bind_eq (halternative _) rfl

/-- A keyword that a text starts with is the only one. -/
theorem guardText?_eq_none {v w : String} {cs : List Char} (hv : v ∈ ["if", "while", "for"])
    (hw : w ∈ ["if", "while", "for"]) (hne : v ≠ w)
    (h : (Text.afterWord? v cs).isSome = true) : guardText? w cs = none := by
  by_contra hsome
  obtain ⟨text, htext⟩ := Option.ne_none_iff_exists'.mp hsome
  exact hne (keyword_unique hv hw h (guardText?_eq_some_iff.mp htext).isSome_afterWord?)

theorem statement_whileDo {body : List Stmt} (hheader : GuardHeader "while" content.toList text)
    (hcondition : Condition.parse text = .ok condition)
    (hblock : block (statement n) n ts true = .ok ((body, rest), dynamic')) :
    statement (n + 1) (⟨.text content, line⟩ :: ts) dynamic =
      .ok ((.whileDo condition body { line, text := content }, rest), dynamic') := by
  have hif : guardText? "if" content.toList = none :=
    guardText?_eq_none (by simp) (by simp) (by decide) hheader.isSome_afterWord?
  rw [statement]
  dsimp only
  rw [hif, guardText?_of_guardHeader hheader]
  apply Parsing.bind_eq (noteDynamic_eq dynamic)
  apply Parsing.bind_eq (liftM_guardCondition "while" hcondition)
  exact Parsing.bind_eq hblock rfl

theorem statement_loop {count : Nat} {body : List Stmt} (hheader : LoopHeader content.toList)
    (hcount : loopCount content.toList = .ok count)
    (hblock : block (statement n) n ts dynamic = .ok ((body, rest), dynamic')) :
    statement (n + 1) (⟨.text content, line⟩ :: ts) dynamic =
      .ok ((.loop count body { line, text := content }, rest), dynamic') := by
  have hif : guardText? "if" content.toList = none :=
    guardText?_eq_none (by simp) (by simp) (by decide) hheader.isSome_afterWord?
  have hwhile : guardText? "while" content.toList = none :=
    guardText?_eq_none (by simp) (by simp) (by decide) hheader.isSome_afterWord?
  rw [statement]
  dsimp only
  rw [hif, hwhile, if_pos (isLoopHeader_eq_true_iff.mpr hheader), hcount]
  exact Parsing.bind_eq hblock rfl

theorem statement_call {name : List Char} (hheader : CallHeader content.toList name) {s : Stmt}
    (hstatement : commandOrCall ⟨.text content, line⟩ content.toList = .ok s) :
    statement (n + 1) (⟨.text content, line⟩ :: ts) dynamic = .ok ((s, ts), dynamic) := by
  obtain ⟨hif, hwhile, hloop, _, _⟩ := callHeader_iff.mp hheader
  rw [statement]
  dsimp only
  rw [hif, hwhile, if_neg (Bool.eq_false_iff.mp hloop)]
  exact Parsing.bind_eq (Parsing.liftM_eq_ok_iff.mpr ⟨hstatement, rfl⟩) rfl

end Statements

theorem commandOrCall_of_command {content : String} {line : Nat} {name : List Char} {c : Command}
    (hheader : CallHeader content.toList name)
    (hcommand : Command.ofName? (String.ofList name) = some c) :
    commandOrCall ⟨.text content, line⟩ content.toList =
      .ok (.command c { line, text := content }) := by
  obtain ⟨_, _, _, _, hname⟩ := callHeader_iff.mp hheader
  rw [commandOrCall, hname]
  simp only [hcommand]
  rfl

theorem commandOrCall_of_call {content : String} {line : Nat} {name : List Char}
    (hheader : CallHeader content.toList name)
    (hnone : Command.ofName? (String.ofList name) = none) :
    commandOrCall ⟨.text content, line⟩ content.toList =
      .ok (.call (String.ofList name) { line, text := content }) := by
  obtain ⟨_, _, _, _, hname⟩ := callHeader_iff.mp hheader
  rw [commandOrCall, hname]
  simp only [hnone]
  rfl

section Pieces

variable {parser : List Token → Parsing (Piece Stmt)} {n line : Nat} {header : Token}
  {s : Stmt} {body ss : List Stmt} {ts mid rest : List Token} {dynamic between dynamic' : Bool}

theorem statements_of_closed (hclosed : ∀ t ∈ ts.head?, t.kind = .rbrace) (k : Nat) :
    statements parser k ts dynamic = .ok (([], ts), dynamic) := by
  cases k with
  | zero => rfl
  | succ k =>
      cases ts with
      | nil => rfl
      | cons t ts =>
          rw [statements, if_pos (hclosed t rfl)]
          rfl

theorem statements_cons {content : String} {k : Nat}
    (hheader : isFunctionHeader content.toList = false)
    (hfirst : parser (⟨.text content, line⟩ :: ts) dynamic = .ok ((s, mid), between))
    (hmore : statements parser k mid between = .ok ((ss, rest), dynamic')) :
    statements parser (k + 1) (⟨.text content, line⟩ :: ts) dynamic =
      .ok ((s :: ss, rest), dynamic') := by
  have hfunction : ¬ isFunctionHeader (Token.text ⟨.text content, line⟩).toList = true :=
    Bool.eq_false_iff.mp hheader
  rw [statements, if_neg (by simp), if_neg hfunction]
  apply Parsing.bind_eq hfirst
  exact Parsing.bind_eq hmore rfl

theorem block_of_statements {line' : Nat}
    (h : statements parser n ts dynamic = .ok ((body, ⟨.rbrace, line'⟩ :: rest), dynamic')) :
    block parser n (⟨.lbrace, line⟩ :: ts) dynamic = .ok ((body, rest), dynamic') := by
  rw [block]
  exact Parsing.bind_eq h rfl

theorem alternative_of_plain (hplain : ∀ t ∈ ts.head?, t.kind ≠ .otherwise) :
    alternative parser n header ts dynamic = .ok ((none, ts), dynamic) := by
  cases ts with
  | nil => rfl
  | cons t ts =>
      obtain ⟨kind, line⟩ := t
      cases kind with
      | otherwise => exact absurd rfl (hplain _ rfl)
      | _ => rfl

theorem alternative_of_block {line' : Nat}
    (h : block parser n (⟨.lbrace, line'⟩ :: ts) dynamic = .ok ((body, rest), dynamic')) :
    alternative parser n header (⟨.otherwise, line⟩ :: ⟨.lbrace, line'⟩ :: ts) dynamic =
      .ok ((some body, rest), dynamic') := by
  rw [alternative]
  exact Parsing.bind_eq h rfl

theorem alternative_of_if {line' : Nat} {content : String} {text : List Char}
    (hheader : GuardHeader "if" content.toList text)
    (h : parser (⟨.text content, line'⟩ :: ts) dynamic = .ok ((s, rest), dynamic')) :
    alternative parser n header (⟨.otherwise, line⟩ :: ⟨.text content, line'⟩ :: ts) dynamic =
      .ok ((some [s], rest), dynamic') := by
  rw [alternative, guardText?_of_guardHeader hheader, if_pos Option.isSome_some]
  exact Parsing.bind_eq h rfl

end Pieces

theorem isDynamic_ifWith (condition : Condition) (consequent : List Stmt)
    (alternate : Option (List Stmt)) (source : SourceRef) :
    (Stmt.ifWith condition consequent alternate source).isDynamic = true := by
  cases alternate <;> rw [Stmt.ifWith, Stmt.isDynamic]

/-- **What is derived is what the parser returns.** -/
theorem Derives.parses {ts rest : List Token} {phrase : Phrase} (h : Derives ts phrase rest) :
    ∀ n, ts.length ≤ n → ∀ dynamic, Parses n ts dynamic phrase rest := by
  induction h with
  | @conditional _ line _ condition consequent alternate _ _ rest hheader hcondition hblock _
      ihblock ihelse =>
      rintro (_ | n) hn dynamic
      · cases hn
      · have hn := Nat.le_of_succ_le_succ hn
        have hmid := Nat.le_of_lt hblock.length_le
        -- the guard has set the memory, whatever its blocks add to it
        rw [Parses, isDynamic_ifWith, Bool.or_true]
        exact statement_conditional hheader hcondition (ihblock n hn true)
          (ihelse n (Nat.le_trans hmid hn) true)
  | plain hplain =>
      intro n _ dynamic header
      rw [Option.any_none, Bool.or_false]
      exact alternative_of_plain hplain
  | elseBlock hblock ih =>
      intro n hn dynamic header
      obtain ⟨line, behind, rfl⟩ := hblock.exists_brace
      exact alternative_of_block (ih n (Nat.le_of_lt hn) dynamic)
  | @elseIf _ s _ _ hif ih =>
      intro n hn dynamic header
      obtain ⟨content, line, text, behind, rfl, hheader⟩ := hif.exists_if
      have hdynamic : (some [s]).any Stmt.anyDynamic = s.isDynamic := by
        rw [Option.any_some, Stmt.anyDynamic, Stmt.anyDynamic, Bool.or_false]
      rw [hdynamic]
      exact alternative_of_if hheader (ih n (Nat.le_of_lt hn) dynamic)
  | ofConditional _ ih => exact ih
  | whileDo hheader hcondition _ ih =>
      rintro (_ | n) hn dynamic
      · cases hn
      · rw [Parses, Stmt.isDynamic, Bool.or_true]
        exact statement_whileDo hheader hcondition (ih n (Nat.le_of_succ_le_succ hn) true)
  | loop hheader hcount _ ih =>
      rintro (_ | n) hn dynamic
      · cases hn
      · rw [Parses, Stmt.isDynamic]
        exact statement_loop hheader hcount (ih n (Nat.le_of_succ_le_succ hn) dynamic)
  | command hheader hcommand =>
      rintro (_ | n) hn dynamic
      · cases hn
      · rw [Parses, Stmt.isDynamic, Bool.or_false]
        exact statement_call hheader (commandOrCall_of_command hheader hcommand)
  | call hheader hnone =>
      rintro (_ | n) hn dynamic
      · cases hn
      · rw [Parses, Stmt.isDynamic, Bool.or_false]
        exact statement_call hheader (commandOrCall_of_call hheader hnone)
  | nil =>
      intro n _ dynamic hclosed k _
      rw [Stmt.anyDynamic, Bool.or_false]
      exact statements_of_closed hclosed k
  | @cons s ss _ _ _ hfirst _ ihfirst ihmore =>
      rintro n hn dynamic hclosed (_ | k) hk
      · have hlength := Nat.le_trans hfirst.length_le hk
        cases hlength
      · have hmid : _ + 1 ≤ _ := hfirst.length_le
        obtain ⟨content, line, behind, rfl, hheader⟩ := hfirst.exists_text
        rw [Stmt.anyDynamic, ← Bool.or_assoc]
        -- the other statements start with the memory that the first one has left
        refine statements_cons hheader (ihfirst n hn dynamic)
          (ihmore n ?_ (dynamic || s.isDynamic) hclosed k ?_)
        · exact Nat.le_trans (Nat.le_of_lt hmid) hn
        · exact Nat.le_of_succ_le_succ (Nat.le_trans hmid hk)
  | block _ ih =>
      intro n hn dynamic
      have hn := Nat.le_of_lt hn
      exact block_of_statements (ih n hn dynamic (fun t ht => by cases ht; rfl) n hn)

theorem Derives.statement_eq {ts rest : List Token} {s : Stmt}
    (h : Derives ts (.statement s) rest) {n : Nat} (hn : ts.length ≤ n) (dynamic : Bool) :
    Script.statement n ts dynamic = .ok ((s, rest), dynamic || s.isDynamic) :=
  h.parses n hn dynamic

theorem Derives.block_eq {ts rest : List Token} {body : List Stmt}
    (h : Derives ts (.block body) rest) {n : Nat} (hn : ts.length ≤ n) (dynamic : Bool) :
    Script.block (Script.statement n) n ts dynamic =
      .ok ((body, rest), dynamic || Stmt.anyDynamic body) :=
  h.parses n hn dynamic

theorem Derives.statement_unique {ts rest rest' : List Token} {s s' : Stmt}
    (h : Derives ts (.statement s) rest) (h' : Derives ts (.statement s') rest') :
    s' = s ∧ rest' = rest := by
  have heq := (h'.statement_eq (Nat.le_refl _) false).symm.trans
    (h.statement_eq (Nat.le_refl _) false)
  cases heq
  exact ⟨rfl, rfl⟩

theorem Derives.block_unique {ts rest rest' : List Token} {body body' : List Stmt}
    (h : Derives ts (.block body) rest) (h' : Derives ts (.block body') rest') :
    body' = body ∧ rest' = rest := by
  have heq := (h'.block_eq (Nat.le_refl _) false).symm.trans (h.block_eq (Nat.le_refl _) false)
  cases heq
  exact ⟨rfl, rfl⟩

end GemGrid.Script
