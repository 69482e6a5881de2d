import GemGrid.Proofs.Condition.Grammar

/-!
# Written conditions are as short as can be

A tree has many spellings, since any part of one may be put in parentheses.  The printer's is the
shortest, and there is no other of that length.

What is shortest depends on the place: under a negation a connective has to be in parentheses, as an
operand of `&&` only a disjunction or a right operand has to.  `tokensAt` gives the spelling for
each level of the grammar, and `Derives.shortest` compares it with an arbitrary derivation, rule by
rule:

* a rule that puts two parts together keeps both parts shortest (`Shortest.append`),
* a rule that leads to a looser level may make parentheses needless (`Shortest.loosen`),
* parentheses in the derivation are needed, or they make it longer (`Shortest.group`).
-/

namespace GemGrid.Condition

/-! ## Shortest spellings -/

/-- No longer than some tokens, and the same if they are no longer either. -/
structure Shortest (best ts : List ConditionToken) : Prop where
  le : best.length ≤ ts.length
  unique : ts.length = best.length → ts = best

namespace Shortest

variable {best best' ts ts' : List ConditionToken}

theorem refl (ts : List ConditionToken) : Shortest ts ts :=
  ⟨Nat.le_refl _, fun _ => rfl⟩

theorem cons (h : Shortest best ts) (t : ConditionToken) : Shortest (t :: best) (t :: ts) where
  le := Nat.succ_le_succ h.le
  unique hlength := by rw [h.unique (Nat.succ.inj hlength)]

theorem append (h : Shortest best ts) (h' : Shortest best' ts') (sign : ConditionToken) :
    Shortest (best ++ sign :: best') (ts ++ sign :: ts') := by
  have hle := h.le
  have hle' := h'.le
  constructor
  · simp only [List.length_append, List.length_cons]
    omega
  · intro hlength
    -- neither part can make up for the other
    simp only [List.length_append, List.length_cons] at hlength
    rw [h.unique (by omega), h'.unique (by omega)]

/-- Where fewer parentheses are needed a spelling gets shorter or stays the same. -/
theorem loosen {parens fewer : Bool} (hfewer : fewer = true → parens = true)
    (h : Shortest (wrapTokens parens best) ts) : Shortest (wrapTokens fewer best) ts := by
  cases fewer with
  | true =>
      rw [hfewer rfl] at h
      exact h
  | false =>
      cases parens with
      | false => exact h
      | true =>
          -- two tokens are saved, so what needed the parentheses is longer
          have hle := h.le
          simp only [wrapTokens, if_true, List.length_cons, List.length_append,
            List.length_nil] at hle
          have hlt : best.length < ts.length := by omega
          exact ⟨Nat.le_of_lt hlt, fun hlength => absurd hlength (Nat.ne_of_gt hlt)⟩

/-- Parentheses are needed, or they make a spelling longer. -/
theorem group (h : Shortest best ts) (parens : Bool) :
    Shortest (wrapTokens parens best) (.lparen :: (ts ++ [.rparen])) := by
  have hwrapped : Shortest (wrapTokens true best) (.lparen :: (ts ++ [.rparen])) :=
    (h.append (refl []) .rparen).cons .lparen
  exact hwrapped.loosen fun _ => rfl

end Shortest

/-! ## Each level of the grammar -/

/-- The tokens that a tree is written as where a level of the grammar is expected. -/
def tokensAt : Level → Condition → List ConditionToken
  | .disjunction, c => c.tokens
  | .conjunction, c => wrapTokens (c.needsParens .and false) c.tokens
  | .unary, c => wrapTokens c.isLogical c.tokens

theorem isLogical_of_needsParens {parent : LogicalOp} {onRight : Bool} {c : Condition}
    (h : c.needsParens parent onRight = true) : c.isLogical = true := by
  cases c with
  | predicate p => cases h
  | not c => cases h
  | logical op l r => rfl

theorem tokens_or (l r : Condition) : (Condition.logical .or l r).tokens =
    tokensAt .disjunction l ++ .or :: tokensAt .conjunction r := by
  rw [tokens, needsParens_or_left, needsParens_or_right]
  rfl

theorem tokens_and (l r : Condition) : (Condition.logical .and l r).tokens =
    tokensAt .conjunction l ++ .and :: tokensAt .unary r := by
  rw [tokens, ← isLogical_eq_needsParens r]
  rfl

/-- The printer's tokens are the shortest of all that derive the tree. -/
theorem Derives.shortest {level : Level} {ts : List ConditionToken} {c : Condition}
    (h : Derives level ts c) : Shortest (tokensAt level c) ts := by
  induction h with
  | @ofConjunction ts c _ ih =>
      have hloose : Shortest (wrapTokens false c.tokens) ts := ih.loosen nofun
      exact hloose
  | @or ts us l r _ _ ihl ihr =>
      rw [tokensAt, tokens_or]
      exact ihl.append ihr .or
  | ofUnary _ ih => exact ih.loosen isLogical_of_needsParens
  | @and ts us l r _ _ ihl ihr =>
      show Shortest (Condition.logical .and l r).tokens _
      rw [tokens_and]
      exact ihl.append ihr .and
  | not _ ih => exact ih.cons .not
  | group _ ih => exact ih.group _
  | predicate p => exact .refl _

/-- **Conditions are written with the fewest tokens.**  The tokens of a written condition are the
one shortest list that is parsed as the condition.  So no pair of parentheses can be left out:
without it the tokens are parsed as another condition or not at all. -/
theorem render_shortest (c : Condition) :
    ∃ best, ConditionToken.scan c.render.toList = .ok best ∧ ofTokens best = .ok c ∧
      (∀ ts, ofTokens ts = .ok c →
        best.length ≤ ts.length ∧ (ts.length = best.length → ts = best)) ∧
      ∀ before inside after, best = before ++ .lparen :: (inside ++ .rparen :: after) →
        ofTokens (before ++ (inside ++ after)) ≠ .ok c := by
  have hshortest : ∀ ts, ofTokens ts = .ok c → Shortest c.tokens ts :=
    fun ts hts => (derives_of_ofTokens hts).shortest
  refine ⟨c.tokens, scan_render c, ofTokens_tokens c, fun ts hts => ?_, ?_⟩
  · exact ⟨(hshortest ts hts).le, (hshortest ts hts).unique⟩
  · intro before inside after hbest hdropped
    -- with a pair less it would be shorter than the shortest
    have hle := (hshortest _ hdropped).le
    rw [hbest] at hle
    simp only [List.length_append, List.length_cons] at hle
    omega

/-- A disjunction under a negation and a conjunction on the right keep their parentheses, and the
others of a longer spelling are left out. -/
theorem render_shortest_nested :
    let gem : Condition := .predicate .isOnGem
    let wall : Condition := .predicate .isBlocked
    let c : Condition :=
      .logical .and (.not (.logical .or gem wall)) (.logical .and gem (.not wall))
    let longer : List ConditionToken := [.lparen, .not, .lparen, .ident "isOnGem", .or,
      .ident "isBlocked", .rparen, .rparen, .and, .lparen, .ident "isOnGem", .and, .not,
      .ident "isBlocked", .rparen]
    c.render = "!(isOnGem || isBlocked) && (isOnGem && !isBlocked)" ∧ ofTokens longer = .ok c ∧
      ∃ best, ConditionToken.scan c.render.toList = .ok best ∧ best.length ≤ longer.length ∧
        ofTokens [.not, .lparen, .ident "isOnGem", .or, .ident "isBlocked", .rparen, .and,
          .ident "isOnGem", .and, .not, .ident "isBlocked"] ≠ .ok c := by
  intro gem wall c longer
  have hlonger : ofTokens longer = .ok c := rfl
  obtain ⟨best, hscan, -, hshortest, hparens⟩ := render_shortest c
  obtain rfl : best = c.tokens := Except.ok.inj (hscan.symm.trans (scan_render c))
  refine ⟨by decide +kernel, hlonger, _, hscan, (hshortest longer hlonger).1, ?_⟩
  exact hparens [.not, .lparen, .ident "isOnGem", .or, .ident "isBlocked", .rparen, .and]
    [.ident "isOnGem", .and, .not, .ident "isBlocked"] [] (by decide +kernel)

end GemGrid.Condition
