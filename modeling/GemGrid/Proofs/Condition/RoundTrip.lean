import GemGrid.Condition.Parser
import GemGrid.Proofs.Condition.Spelling

/-!
# Written conditions are read back

`parse_render`: parsing the text of a condition gives the condition.

The parser has three levels.  For each of them there is a statement that some tokens are read as a
tree, whatever tokens come after them:

* `UnaryReads`: `unary` returns the tree and the tokens after it;
* `ConjunctionReads`: `conjunction` comes to the tokens after it with the tree as what its loop has
  read so far;
* `DisjunctionReads`: the same for the loop of `disjunction`.  It holds only if no `&&` follows, which
  would still belong to the last operand.

The last two speak of a loop that goes on because the left operand of `a && b && c` is never a
complete conjunction to the parser.  Each rule of the grammar is a lemma on these statements
(`ConjunctionReads.and`, `DisjunctionReads.group`, …), and the tokens of a tree are put together by
the same rules: where the printer leaves out parentheses, the operand is read at the level of the
place it stands in (`reads`).

All functions of the parser carry a bound on the tokens; it is enough that it covers them all.
-/

namespace GemGrid.Condition

variable {c l r : Condition} {ts us : List ConditionToken}

/-! ## The loop of a connective -/

section Chain

variable {sign : ConditionToken} {op : LogicalOp} {operand : List ConditionToken → Parsed}

/-- The loop ends at a token that is not its sign. -/
theorem chain_of_head?_ne (n : Nat) (left : Condition) (h : ts.head? ≠ some sign) :
    chain sign op operand n left ts = .ok (left, ts) := by
  cases n with
  | zero => rfl
  | succ n =>
      cases ts with
      | nil => rfl
      | cons t ts =>
          have hne : t ≠ sign := by simpa using h
          rw [chain, if_neg hne]

/-- The loop takes in one operand. -/
theorem chain_sign (n : Nat) (left : Condition) {right : Condition}
    {rest : List ConditionToken} (h : operand ts = .ok (right, rest)) :
    chain sign op operand (n + 1) left (sign :: ts) =
      chain sign op operand n (.logical op left right) rest := by
  rw [chain, if_pos rfl, h]
  rfl

end Chain

/-! ## The three levels -/

/-- The tokens are read by `unary` as a tree. -/
def UnaryReads (ts : List ConditionToken) (c : Condition) : Prop :=
  ∀ n rest, (ts ++ rest).length ≤ n → unary n (ts ++ rest) = .ok (c, rest)

/-- The tokens bring the loop of `conjunction` to what follows them, with a tree read so far and
enough rounds left. -/
def ConjunctionReads (ts : List ConditionToken) (c : Condition) : Prop :=
  ∀ n rest, (ts ++ rest).length ≤ n → ∃ k, rest.length ≤ k ∧
    conjunction (unary n) n (ts ++ rest) = chain .and .and (unary n) k c rest

/-- The tokens bring the loop of `disjunction` to what follows them, with a tree read so far and
enough rounds left. -/
def DisjunctionReads (ts : List ConditionToken) (c : Condition) : Prop :=
  ∀ n rest, (ts ++ rest).length ≤ n → rest.head? ≠ some .and → ∃ k, rest.length ≤ k ∧
    disjunction (unary n) n (ts ++ rest) =
      chain .or .or (conjunction (unary n) n) k c rest

/-! ### Each level contains the one below -/

theorem UnaryReads.conjunction (h : UnaryReads ts c) : ConjunctionReads ts c := by
  intro n rest hn
  refine ⟨n, ?_, ?_⟩
  · simp only [List.length_append] at hn
    omega
  · rw [Condition.conjunction, h n rest hn]
    rfl

/-- A conjunction that no `&&` continues is an operand of a disjunction. -/
theorem ConjunctionReads.disjunction (h : ConjunctionReads ts c) : DisjunctionReads ts c := by
  intro n rest hn hrest
  obtain ⟨k, -, hk⟩ := h n rest hn
  refine ⟨n, ?_, ?_⟩
  · simp only [List.length_append] at hn
    omega
  · rw [Condition.disjunction, hk, chain_of_head?_ne k c hrest]
    rfl

/-- Parentheses lead from the top level to the bottom. -/
theorem DisjunctionReads.group (h : DisjunctionReads ts c) :
    UnaryReads (wrapTokens true ts) c := by
  intro n rest hn
  have htokens : wrapTokens true ts ++ rest = .lparen :: (ts ++ .rparen :: rest) := by
    simp [wrapTokens]
  rw [htokens] at hn ⊢
  obtain ⟨n, rfl⟩ : ∃ m, n = m + 1 := ⟨n - 1, by simp at hn; omega⟩
  -- the closing parenthesis ends the loops of both connectives
  obtain ⟨k, -, hk⟩ := h n (.rparen :: rest) (by simpa using hn) (by simp)
  rw [unary, hk, chain_of_head?_ne k c (by simp)]
  rfl

/-! ### The rules of the grammar -/

theorem unaryReads_predicate (p : Predicate) : UnaryReads [.ident p.name] (.predicate p) := by
  intro n rest hn
  obtain ⟨n, rfl⟩ : ∃ m, n = m + 1 := ⟨n - 1, by simp at hn; omega⟩
  have hname : Predicate.ofName? p.name = some p := by cases p <;> decide
  simp [unary, hname]

theorem UnaryReads.not (h : UnaryReads ts c) : UnaryReads (.not :: ts) (.not c) := by
  intro n rest hn
  obtain ⟨n, rfl⟩ : ∃ m, n = m + 1 := ⟨n - 1, by simp at hn; omega⟩
  rw [List.cons_append, unary, h n rest (by simpa using hn)]
  rfl

/-- The loop comes to the sign with the left operand and takes in the right one. -/
theorem ConjunctionReads.and (hl : ConjunctionReads ts l) (hr : UnaryReads us r) :
    ConjunctionReads (ts ++ .and :: us) (.logical .and l r) := by
  intro n rest hn
  rw [List.append_assoc, List.cons_append] at hn ⊢
  obtain ⟨k, hk, hleft⟩ := hl n _ hn
  simp only [List.length_append, List.length_cons] at hk hn
  obtain ⟨k, rfl⟩ : ∃ m, k = m + 1 := ⟨k - 1, by omega⟩
  refine ⟨k, by omega, ?_⟩
  -- the sign is a token more, so there is a round left for it
  have hright := hr n rest (by simp only [List.length_append]; omega)
  rw [hleft, chain_sign k l hright]

/-- The loop comes to the sign with the left operand; the right one is a conjunction that what
follows does not continue. -/
theorem DisjunctionReads.or (hl : DisjunctionReads ts l) (hr : ConjunctionReads us r) :
    DisjunctionReads (ts ++ .or :: us) (.logical .or l r) := by
  intro n rest hn hrest
  rw [List.append_assoc, List.cons_append] at hn ⊢
  obtain ⟨k, hk, hleft⟩ := hl n _ hn (by simp)
  simp only [List.length_append, List.length_cons] at hk hn
  obtain ⟨k, rfl⟩ : ∃ m, k = m + 1 := ⟨k - 1, by omega⟩
  refine ⟨k, by omega, ?_⟩
  obtain ⟨j, -, hright⟩ := hr n rest (by simp only [List.length_append]; omega)
  rw [chain_of_head?_ne j r hrest] at hright
  rw [hleft, chain_sign k l hright]

/-! ## The tokens of a tree -/

/-- A connective under a negation has parentheses, as on the right of `&&`. -/
theorem isLogical_eq_needsParens (c : Condition) : c.isLogical = c.needsParens .and true := by
  rcases c with _ | _ | ⟨op, _, _⟩
  · rfl
  · rfl
  · cases op <;> rfl

/-- On the right of `||` parentheses are needed where they are on the left of `&&`. -/
theorem needsParens_or_right (c : Condition) :
    c.needsParens .or true = c.needsParens .and false := by
  rcases c with _ | _ | ⟨op, _, _⟩
  · rfl
  · rfl
  · cases op <;> rfl

/-- On the left of `||` no parentheses are needed. -/
theorem needsParens_or_left (c : Condition) : c.needsParens .or false = false := by
  rcases c with _ | _ | ⟨op, _, _⟩
  · rfl
  · rfl
  · cases op <;> rfl

/-- The tokens of a tree are read as the tree at each level, in the parentheses that the printer
puts at that level. -/
structure Reads (c : Condition) : Prop where
  unary : UnaryReads (wrapTokens (c.needsParens .and true) c.tokens) c
  conjunction : ConjunctionReads (wrapTokens (c.needsParens .and false) c.tokens) c
  disjunction : DisjunctionReads c.tokens c

theorem reads (c : Condition) : Reads c := by
  induction c with
  | predicate p =>
      have hunary := unaryReads_predicate p
      -- what is read as a tighter phrase is read as every looser one
      exact ⟨hunary, hunary.conjunction, hunary.conjunction.disjunction⟩
  | not c ih =>
      have hunary := ih.unary.not
      rw [← isLogical_eq_needsParens] at hunary
      exact ⟨hunary, hunary.conjunction, hunary.conjunction.disjunction⟩
  | logical op l r ihl ihr =>
      cases op with
      | and =>
          have hconjunction := ihl.conjunction.and ihr.unary
          -- only in parentheses is it an operand of `!`
          exact ⟨hconjunction.disjunction.group, hconjunction, hconjunction.disjunction⟩
      | or =>
          have hdisjunction := ihl.disjunction.or ihr.conjunction
          have htokens : l.tokens ++ .or :: wrapTokens (r.needsParens .and false) r.tokens =
              (Condition.logical .or l r).tokens := by
            rw [tokens, needsParens_or_left, needsParens_or_right]
            rfl
          rw [htokens] at hdisjunction
          exact ⟨hdisjunction.group, hdisjunction.group.conjunction, hdisjunction⟩

/-! ## Round trip -/

/-- The tokens of a condition are read as the condition. -/
theorem ofTokens_tokens (c : Condition) : ofTokens c.tokens = .ok c := by
  obtain ⟨k, -, hk⟩ := (reads c).disjunction c.tokens.length [] (by simp) (by simp)
  rw [List.append_nil, chain_of_head?_ne k c (by simp)] at hk
  rw [ofTokens, hk]
  rfl

/-- **Round trip.**  The text of a condition is parsed as the condition. -/
theorem parse_render (c : Condition) : parse c.render.toList = .ok c := by
  rw [parse, scan_render]
  exact ofTokens_tokens c

end GemGrid.Condition
