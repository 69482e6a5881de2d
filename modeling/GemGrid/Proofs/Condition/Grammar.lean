import GemGrid.Proofs.Condition.RoundTrip
import GemGrid.Proofs.Results

/-!
# The grammar of conditions

What a condition is, said by derivation rules over its tokens:

    or    = and | or "||" and
    and   = unary | and "&&" unary
    unary = "!" unary | "(" or ")" | predicate

The rules of the two connectives are left-recursive, so a chain of operands has one tree.  The
parser reads a chain by a loop instead, and its functions return what they leave over.

* `Derives.reads`: what is derived is read at its level, whatever follows.  Each rule is one of the
  lemmas that the round trip of written conditions rests on.
* `unary_takes`, `disjunction_takes`: what a function of the parser has taken is derived.  The loop
  extends the tokens before it by one operand for each sign (`chain_takes`).

As the parser is a function, tokens derive at most one tree.
-/

namespace GemGrid.Condition

/-! ## Rules -/

/-- The levels of the grammar, from loose to tight. -/
inductive Level where
  | disjunction
  | conjunction
  | unary

/-- The tokens derive a tree at a level. -/
inductive Derives : Level → List ConditionToken → Condition → Prop
  | ofConjunction {ts : List ConditionToken} {c : Condition} :
      Derives .conjunction ts c → Derives .disjunction ts c
  | or {ts us : List ConditionToken} {l r : Condition} :
      Derives .disjunction ts l → Derives .conjunction us r →
      Derives .disjunction (ts ++ .or :: us) (.logical .or l r)
  | ofUnary {ts : List ConditionToken} {c : Condition} :
      Derives .unary ts c → Derives .conjunction ts c
  | and {ts us : List ConditionToken} {l r : Condition} :
      Derives .conjunction ts l → Derives .unary us r →
      Derives .conjunction (ts ++ .and :: us) (.logical .and l r)
  | not {ts : List ConditionToken} {c : Condition} :
      Derives .unary ts c → Derives .unary (.not :: ts) (.not c)
  | group {ts : List ConditionToken} {c : Condition} :
      Derives .disjunction ts c → Derives .unary (.lparen :: (ts ++ [.rparen])) c
  | predicate (p : Predicate) : Derives .unary [.ident p.name] (.predicate p)

/-! ## What is derived is read -/

/-- The tokens are read as a tree by the function of a level. -/
def ReadsAt : Level → List ConditionToken → Condition → Prop
  | .disjunction => DisjunctionReads
  | .conjunction => ConjunctionReads
  | .unary => UnaryReads

theorem Derives.reads {level : Level} {ts : List ConditionToken} {c : Condition}
    (h : Derives level ts c) : ReadsAt level ts c := by
  induction h with
  | ofConjunction _ ih => exact ConjunctionReads.disjunction ih
  | or _ _ ihl ihr => exact DisjunctionReads.or ihl ihr
  | ofUnary _ ih => exact UnaryReads.conjunction ih
  | and _ _ ihl ihr => exact ConjunctionReads.and ihl ihr
  | not _ ih => exact UnaryReads.not ih
  | group _ ih => exact DisjunctionReads.group ih
  | predicate p => exact unaryReads_predicate p

/-! ## What is read is derived -/

/-- A function of the parser takes tokens in front that are as `P` says. -/
def Takes (parser : List ConditionToken → Parsed) (P : List ConditionToken → Condition → Prop) :
    Prop :=
  ∀ ts c rest, parser ts = .ok (c, rest) → ∃ used, ts = used ++ rest ∧ P used c

/-- The loop of a connective goes on from tokens that are read already. -/
theorem chain_takes {sign : ConditionToken} {op : LogicalOp}
    {operand : List ConditionToken → Parsed} {outer inner : Level}
    (hoperand : Takes operand (Derives inner))
    (hrule : ∀ {ts us l r}, Derives outer ts l → Derives inner us r →
      Derives outer (ts ++ sign :: us) (.logical op l r)) :
    ∀ n {before : List ConditionToken} {left : Condition}, Derives outer before left →
      Takes (chain sign op operand n left) fun used c => Derives outer (before ++ used) c := by
  intro n
  induction n with
  | zero =>
      intro before left hleft ts c rest h
      cases h
      refine ⟨[], rfl, ?_⟩
      simpa using hleft
  | succ n ih =>
      intro before left hleft ts c rest h
      cases ts with
      | nil =>
          cases h
          refine ⟨[], rfl, ?_⟩
          simpa using hleft
      | cons t ts =>
          rw [chain] at h
          split at h
          · next hsign =>
            subst hsign
            -- the sign and what follows it join the left operand, and the chain goes on with both
            obtain ⟨⟨right, behind⟩, hright, hchain⟩ := exists_of_bind_eq_ok h
            obtain ⟨us, rfl, hus⟩ := hoperand ts right behind hright
            obtain ⟨more, rfl, hmore⟩ := ih (hrule hleft hus) behind c rest hchain
            refine ⟨t :: (us ++ more), by simp, ?_⟩
            simpa using hmore
          · cases h
            refine ⟨[], rfl, ?_⟩
            simpa using hleft

section Operand

variable {operand : List ConditionToken → Parsed} (hoperand : Takes operand (Derives .unary))

include hoperand

theorem conjunction_takes (n : Nat) :
    Takes (conjunction operand n) (Derives .conjunction) := by
  intro ts c rest h
  obtain ⟨⟨left, behind⟩, hleft, hchain⟩ := exists_of_bind_eq_ok h
  obtain ⟨before, rfl, hbefore⟩ := hoperand ts left behind hleft
  obtain ⟨used, rfl, hused⟩ :=
    chain_takes hoperand Derives.and n (.ofUnary hbefore) behind c rest hchain
  exact ⟨before ++ used, (List.append_assoc ..).symm, hused⟩

theorem disjunction_takes (n : Nat) :
    Takes (disjunction operand n) (Derives .disjunction) := by
  intro ts c rest h
  obtain ⟨⟨left, behind⟩, hleft, hchain⟩ := exists_of_bind_eq_ok h
  have hconjunction := conjunction_takes hoperand n
  obtain ⟨before, rfl, hbefore⟩ := hconjunction ts left behind hleft
  obtain ⟨used, rfl, hused⟩ :=
    chain_takes hconjunction Derives.or n (.ofConjunction hbefore) behind c rest hchain
  exact ⟨before ++ used, (List.append_assoc ..).symm, hused⟩

end Operand

theorem unary_takes (n : Nat) : Takes (unary n) (Derives .unary) := by
  induction n with
  | zero =>
      intro ts c rest h
      cases h
  | succ n ih =>
      intro ts c rest h
      cases ts with
      | nil => cases h
      | cons t ts =>
          cases t with
          | not =>
              obtain ⟨⟨operand, behind⟩, hoperand, h⟩ := exists_of_bind_eq_ok h
              cases h
              obtain ⟨used, rfl, hused⟩ := ih ts operand rest hoperand
              exact ⟨.not :: used, rfl, hused.not⟩
          | lparen =>
              obtain ⟨⟨inner, behind⟩, hinner, hclose⟩ := exists_of_bind_eq_ok h
              -- inside parentheses a whole disjunction is read, under the smaller bound
              obtain ⟨used, rfl, hused⟩ := disjunction_takes ih n ts inner behind hinner
              split at hclose
              · next heq =>
                cases hclose
                cases heq
                exact ⟨.lparen :: (used ++ [.rparen]), by simp, hused.group⟩
              · cases hclose
          | ident name =>
              rw [unary] at h
              split at h
              · next p hname =>
                cases h
                have hp : p.name = name := by simpa using List.find?_some hname
                exact ⟨[.ident name], rfl, hp ▸ .predicate p⟩
              · cases h
          | and | or | rparen => cases h

/-! ## The parser and the grammar -/

theorem ofTokens_of_derives {ts : List ConditionToken} {c : Condition}
    (h : Derives .disjunction ts c) : ofTokens ts = .ok c := by
  obtain ⟨k, -, hk⟩ : ∃ k, _ ∧ _ := h.reads ts.length [] (by simp) (by simp)
  rw [List.append_nil, chain_of_head?_ne k c (by simp)] at hk
  rw [ofTokens, hk]
  rfl

theorem derives_of_ofTokens {ts : List ConditionToken} {c : Condition}
    (h : ofTokens ts = .ok c) : Derives .disjunction ts c := by
  obtain ⟨⟨c', rest⟩, hparsed, hend⟩ := exists_of_bind_eq_ok h
  obtain ⟨used, hts, hused⟩ := disjunction_takes (unary_takes _) _ _ c' rest hparsed
  cases rest with
  | nil =>
      cases hend
      rwa [hts, List.append_nil]
  | cons extra rest => cases hend

/-- **The parser of conditions accepts exactly its grammar.**  It returns the tree that the tokens
derive, which is the only one, and an error of the one kind that conditions have if they derive
none. -/
theorem ofTokens_accepts_grammar (ts : List ConditionToken) :
    (∀ c, ofTokens ts = .ok c ↔ Derives .disjunction ts c) ∧
    (∀ c c', Derives .disjunction ts c → Derives .disjunction ts c' → c' = c) ∧
    ((∀ c, ¬ Derives .disjunction ts c) →
      ∃ e, ofTokens ts = .error e ∧ e.toDiagnostic.code = 206) := by
  refine ⟨fun c => ⟨derives_of_ofTokens, ofTokens_of_derives⟩, ?_, ?_⟩
  · intro c c' h h'
    have heq := (ofTokens_of_derives h').symm.trans (ofTokens_of_derives h)
    exact Except.ok.inj heq
  · intro hnone
    cases hresult : ofTokens ts with
    | ok c => exact absurd (derives_of_ofTokens hresult) (hnone c)
    | error e => exact ⟨e, rfl, rfl⟩

end GemGrid.Condition
