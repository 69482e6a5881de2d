import GemGrid.Condition.Parser
import GemGrid.Proofs.Script.Headers
import GemGrid.Script.Basic
import GemGrid.Script.LoopCount
import GemGrid.Script.Token

/-!
# The grammar of scripts

What a script is, said by derivation rules over its tokens.

`Derives ts phrase rest` says that `ts` starts with a phrase, of the kind and for the statements
that `phrase` says, and that `rest` follows it.  The rules do not say in which order headers are
tested or how a block is searched for its end.  Only one rule looks at a token that it does not
take: an `if` ends without an alternative where no `else` follows.

`Stmt.isDynamic` says whether an `if` or a `while` stands anywhere in a statement.  It looks at the
finished tree, where the parser sets its memory while it reads.

A statement takes at least one token (`Derives.length_le`), and its first token tells what it is:
a text that is no function header (`Derives.exists_text`), and an `if` exactly if it looks like one
(`Derives.conditional_of_header`).
-/

namespace GemGrid

/-! ## Guards in statements -/

namespace Stmt

mutual

/-- Whether an `if` or a `while` occurs in a statement. -/
def isDynamic : Stmt → Bool
  | .command .. => false
  | .loop _ body _ => anyDynamic body
  | .ifThen .. | .ifElse .. | .whileDo .. => true
  | .call .. => false

/-- Whether an `if` or a `while` occurs in a list of statements. -/
def anyDynamic : List Stmt → Bool
  | [] => false
  | s :: ss => s.isDynamic || anyDynamic ss

end

end Stmt

namespace Script

/-! ## Rules -/

/-- The kinds of phrase, with what they stand for. -/
inductive Phrase where
  /-- A statement that is an `if`. -/
  | conditional (s : Stmt)
  | statement (s : Stmt)
  | statements (ss : List Stmt)
  | block (body : List Stmt)
  /-- What follows the block of an `if`. -/
  | alternative (alternate : Option (List Stmt))

/-- A list of tokens starts with a phrase, and the second list follows. -/
inductive Derives : List Token → Phrase → List Token → Prop
  | conditional {content : String} {line : Nat} {text : List Char} {condition : Condition}
      {consequent : List Stmt} {alternate : Option (List Stmt)} {ts mid rest : List Token} :
      GuardHeader "if" content.toList text → Condition.parse text = .ok condition →
      Derives ts (.block consequent) mid → Derives mid (.alternative alternate) rest →
      Derives (⟨.text content, line⟩ :: ts)
        (.conditional (.ifWith condition consequent alternate { line, text := content })) rest
  | plain {ts : List Token} : (∀ t ∈ ts.head?, t.kind ≠ .otherwise) →
      Derives ts (.alternative none) ts
  | elseBlock {line : Nat} {body : List Stmt} {ts rest : List Token} :
      Derives ts (.block body) rest →
      Derives (⟨.otherwise, line⟩ :: ts) (.alternative (some body)) rest
  | elseIf {line : Nat} {s : Stmt} {ts rest : List Token} : Derives ts (.conditional s) rest →
      Derives (⟨.otherwise, line⟩ :: ts) (.alternative (some [s])) rest
  | ofConditional {s : Stmt} {ts rest : List Token} : Derives ts (.conditional s) rest →
      Derives ts (.statement s) rest
  | whileDo {content : String} {line : Nat} {text : List Char} {condition : Condition}
      {body : List Stmt} {ts rest : List Token} :
      GuardHeader "while" content.toList text → Condition.parse text = .ok condition →
      Derives ts (.block body) rest →
      Derives (⟨.text content, line⟩ :: ts)
        (.statement (.whileDo condition body { line, text := content })) rest
  | loop {content : String} {line count : Nat} {body : List Stmt} {ts rest : List Token} :
      LoopHeader content.toList → loopCount content.toList = .ok count →
      Derives ts (.block body) rest →
      Derives (⟨.text content, line⟩ :: ts)
        (.statement (.loop count body { line, text := content })) rest
  | command {content : String} {line : Nat} {name : List Char} {c : Command} {ts : List Token} :
      CallHeader content.toList name → Command.ofName? (String.ofList name) = some c →
      Derives (⟨.text content, line⟩ :: ts) (.statement (.command c { line, text := content })) ts
  | call {content : String} {line : Nat} {name : List Char} {ts : List Token} :
      CallHeader content.toList name → Command.ofName? (String.ofList name) = none →
      Derives (⟨.text content, line⟩ :: ts)
        (.statement (.call (String.ofList name) { line, text := content })) ts
  | nil {ts : List Token} : Derives ts (.statements []) ts
  | cons {s : Stmt} {ss : List Stmt} {ts mid rest : List Token} :
      Derives ts (.statement s) mid → Derives mid (.statements ss) rest →
      Derives ts (.statements (s :: ss)) rest
  | block {line line' : Nat} {body : List Stmt} {ts rest : List Token} :
      Derives ts (.statements body) (⟨.rbrace, line'⟩ :: rest) →
      Derives (⟨.lbrace, line⟩ :: ts) (.block body) rest

/-- The tokens of a whole script, with its main statements and its functions in order. -/
inductive DerivesScript : List Token → List Stmt → List FunctionDef → Prop
  | nil : DerivesScript [] [] []
  | statement {s : Stmt} {ts rest : List Token} {main : List Stmt}
      {functions : List FunctionDef} : Derives ts (.statement s) rest →
      DerivesScript rest main functions → DerivesScript ts (s :: main) functions
  | function {content : String} {line : Nat} {name : List Char} {body main : List Stmt}
      {ts rest : List Token} {functions : List FunctionDef} :
      FunctionShape content.toList name → Derives ts (.block body) rest →
      DerivesScript rest main functions →
      DerivesScript (⟨.text content, line⟩ :: ts) main
        ({ name := String.ofList name, body, source := { line, text := content } } :: functions)

/-! ## Phrases and their tokens -/

/-- The least number of tokens that a phrase takes. -/
def Phrase.least : Phrase → Nat
  | .statements _ | .alternative _ => 0
  | .conditional _ | .statement _ | .block _ => 1

theorem Derives.length_le {ts rest : List Token} {phrase : Phrase} (h : Derives ts phrase rest) :
    rest.length + phrase.least ≤ ts.length := by
  induction h with
  | conditional _ _ _ _ ihblock ihelse =>
      simp only [Phrase.least, List.length_cons] at *
      omega
  | cons _ _ ihfirst ihmore =>
      simp only [Phrase.least] at *
      omega
  | _ =>
      simp only [Phrase.least, List.length_cons] at *
      omega

/-- What follows a phrase comes from the same tokens. -/
theorem Derives.subset {ts rest : List Token} {phrase : Phrase} (h : Derives ts phrase rest) :
    rest ⊆ ts := by
  induction h with
  | conditional _ _ _ _ ihblock ihelse =>
      exact List.Subset.trans ihelse (List.subset_cons_of_subset _ ihblock)
  | plain _ | nil => exact List.Subset.refl _
  | ofConditional _ ih => exact ih
  | cons _ _ ihfirst ihmore => exact List.Subset.trans ihmore ihfirst
  | block _ ih => exact List.subset_cons_of_subset _ (List.cons_subset.mp ih).2
  | command _ _ | call _ _ => exact List.subset_cons_self _ _
  | elseBlock _ ih | elseIf _ ih | whileDo _ _ _ ih | loop _ _ _ ih =>
      exact List.subset_cons_of_subset _ ih

/-- A statement starts with a text that is no function header. -/
theorem Derives.exists_text {ts rest : List Token} {s : Stmt}
    (h : Derives ts (.statement s) rest) :
    ∃ content line behind, ts = ⟨.text content, line⟩ :: behind ∧
      isFunctionHeader content.toList = false := by
  cases h with
  | ofConditional h =>
      -- a keyword starts the header, and no header starts with two
      cases h with
      | conditional hheader =>
          exact ⟨_, _, _, rfl, isFunctionHeader_eq_false (by simp) hheader.isSome_afterWord?⟩
  | whileDo hheader =>
      exact ⟨_, _, _, rfl, isFunctionHeader_eq_false (by simp) hheader.isSome_afterWord?⟩
  | loop hheader =>
      exact ⟨_, _, _, rfl, isFunctionHeader_eq_false (by simp) hheader.isSome_afterWord?⟩
  | command hheader => exact ⟨_, _, _, rfl, (callHeader_iff.mp hheader).2.2.2.1⟩
  | call hheader => exact ⟨_, _, _, rfl, (callHeader_iff.mp hheader).2.2.2.1⟩

/-- A statement whose header is that of an `if` is one. -/
theorem Derives.conditional_of_header {content : String} {line : Nat} {text : List Char}
    {ts rest : List Token} {s : Stmt}
    (h : Derives (⟨.text content, line⟩ :: ts) (.statement s) rest)
    (hheader : GuardHeader "if" content.toList text) :
    Derives (⟨.text content, line⟩ :: ts) (.conditional s) rest := by
  cases h with
  | ofConditional h => exact h
  | whileDo hheader' =>
      -- two keywords in front of one header would be the same word
      have hsame := keyword_unique (by simp) (by simp) hheader.isSome_afterWord?
        hheader'.isSome_afterWord?
      exact absurd hsame (by decide)
  | loop hheader' =>
      have hsame := keyword_unique (by simp) (by simp) hheader.isSome_afterWord?
        hheader'.isSome_afterWord?
      exact absurd hsame (by decide)
  | command hheader' => exact absurd hheader (hheader'.noIf text)
  | call hheader' => exact absurd hheader (hheader'.noIf text)

/-- An `if` starts with its header. -/
theorem Derives.exists_if {ts rest : List Token} {s : Stmt}
    (h : Derives ts (.conditional s) rest) :
    ∃ content line text behind, ts = ⟨.text content, line⟩ :: behind ∧
      GuardHeader "if" content.toList text := by
  cases h with
  | conditional hheader => exact ⟨_, _, _, _, rfl, hheader⟩

/-- A block starts with a brace. -/
theorem Derives.exists_brace {ts rest : List Token} {body : List Stmt}
    (h : Derives ts (.block body) rest) : ∃ line behind, ts = ⟨.lbrace, line⟩ :: behind := by
  cases h with
  | block => exact ⟨_, _, rfl⟩

/-- No statement starts like a function. -/
theorem Derives.not_functionShape {content : String} {line : Nat} {name : List Char}
    {ts rest : List Token} {s : Stmt}
    (h : Derives (⟨.text content, line⟩ :: ts) (.statement s) rest) :
    ¬ FunctionShape content.toList name := by
  intro hshape
  obtain ⟨_, _, _, heq, hheader⟩ := h.exists_text
  cases heq
  rw [isFunctionHeader_eq_true_iff.mpr hshape.functionHeader] at hheader
  cases hheader

end Script

end GemGrid
