import GemGrid.Proofs.Script.Comments
import GemGrid.Proofs.Script.Counting
import GemGrid.Proofs.Script.Programs

/-!
# Where the errors of a script point

An error of a script shows a line of it, unless there is none to show: the script is empty, or it
has no statements outside of functions.  `placed_of_read` says what line that is, and what text
stands beside it.

The places come from three sides.

* The parser puts a mishap at a token that it has looked at, or at the end of the script.  Since
  each of its pieces leaves over only tokens of the script, all of them are (`Keeps`).  The lemmas
  follow the parser piece by piece, and `keepsTokens_statement` closes the circle by induction on
  the bound.
* The check of the calls puts an error at the statement of a call, which was written as one of the
  tokens (`Derives.isWritten`, one case for each rule of the grammar).  The count of the commands
  adds no error to these.
* A token has the number of a line of the source, and so has the last token, which stands for the
  end of the script.
-/

namespace GemGrid.Script

/-! ## Mishaps while the tokens are read -/

/-- A fault found while the tokens are read, at one of them or at the end of the script. -/
structure Pinned (tokens : List Token) (m : Mishap) : Prop where
  code : 201 ≤ m.fault.code ∧ m.fault.code ≤ 211
  place : m.place = .scriptEnd ∨ ∃ t ∈ tokens, m.place = .line t.line

/-- Whatever the parser remembers, the result is as `P` says, or a mishap with a place in the
script. -/
def Keeps {α : Type} (tokens : List Token) (P : α → Prop) (x : Parsing α) : Prop :=
  ∀ dynamic, match x dynamic with
  | .ok (a, _) => P a
  | .error m => Pinned tokens m

/-- A piece of the parser leaves over only tokens of the script. -/
abbrev KeepsTokens {α : Type} (tokens : List Token) : Parsing (Piece α) → Prop :=
  Keeps tokens fun piece => piece.2 ⊆ tokens

section Pieces

variable {tokens : List Token} {α β : Type}

theorem keeps_pure {P : α → Prop} {a : α} (h : P a) : Keeps tokens P (pure a) :=
  fun _ => h

theorem keeps_throw {P : α → Prop} {m : Mishap} (h : Pinned tokens m) :
    Keeps tokens P (throw m) :=
  fun _ => h

theorem Keeps.bind {P : α → Prop} {Q : β → Prop} {x : Parsing α} {f : α → Parsing β}
    (hx : Keeps tokens P x) (hf : ∀ a, P a → Keeps tokens Q (f a)) :
    Keeps tokens Q (x >>= f) := by
  intro dynamic
  -- the flag goes through, whatever it was
  have hfirst := hx dynamic
  change match x dynamic >>= fun p => f p.1 p.2 with
    | .ok (b, _) => Q b
    | .error m => Pinned tokens m
  cases hrun : x dynamic with
  | error m =>
      rw [hrun] at hfirst
      exact hfirst
  | ok p =>
      rw [hrun] at hfirst
      exact hf p.1 hfirst p.2

theorem pinned_line {fault : ScriptFault} {t : Token} (ht : t ∈ tokens)
    (hcode : 201 ≤ fault.code ∧ fault.code ≤ 211) : Pinned tokens ⟨fault, .line t.line⟩ :=
  ⟨hcode, .inr ⟨t, ht, rfl⟩⟩

theorem pinned_here {fault : ScriptFault} {ts : List Token} (hts : ts ⊆ tokens)
    (hcode : 201 ≤ fault.code ∧ fault.code ≤ 211) : Pinned tokens ⟨fault, here ts⟩ := by
  cases ts with
  | nil => exact ⟨hcode, .inl rfl⟩
  | cons t ts => exact pinned_line (hts (List.mem_cons_self ..)) hcode

end Pieces

section Parser

variable {tokens : List Token} {parser : List Token → Parsing (Piece Stmt)}
  (hparser : ∀ ts, ts ⊆ tokens → KeepsTokens tokens (parser ts))

include hparser

theorem keepsTokens_statements (k : Nat) :
    ∀ ts, ts ⊆ tokens → KeepsTokens tokens (statements parser k ts) := by
  induction k with
  | zero => exact fun ts hts => keeps_pure hts
  | succ k ih =>
      intro ts hts
      cases ts with
      | nil => exact keeps_pure hts
      | cons t ts =>
          rw [statements]
          split
          · exact keeps_pure hts
          · split
            · -- an `else` in front of a statement, and it stands in its own line
              exact keeps_throw (pinned_line (hts (List.mem_cons_self ..)) (by decide))
            · apply (hparser _ hts).bind
              intro first hfirst
              exact (ih _ hfirst).bind fun more hmore => keeps_pure hmore

theorem keepsTokens_block (n : Nat) {ts : List Token} (hts : ts ⊆ tokens) :
    KeepsTokens tokens (block parser n ts) := by
  unfold block
  split
  · next line ts =>
    obtain ⟨hbrace, hts⟩ := List.cons_subset.mp hts
    apply (keepsTokens_statements hparser n ts hts).bind
    intro body hbody
    split
    · exact keeps_pure (List.cons_subset.mp hbody).2
    · exact keeps_throw (pinned_line hbrace (by decide))
  · exact keeps_throw (pinned_here hts (by decide))

theorem keepsTokens_alternative (n : Nat) {header : Token} {ts : List Token}
    (hheader : header ∈ tokens) (hts : ts ⊆ tokens) :
    KeepsTokens tokens (alternative parser n header ts) := by
  unfold alternative
  split
  · have hblock := keepsTokens_block hparser n (List.cons_subset.mp hts).2
    exact hblock.bind fun body hbody => keeps_pure hbody
  · split
    · exact (hparser _ (List.cons_subset.mp hts).2).bind fun inner hinner => keeps_pure hinner
    · exact keeps_throw (pinned_line hheader (by decide))
  · exact keeps_throw (pinned_line hheader (by decide))
  · exact keeps_pure hts

end Parser

section Statements

variable {tokens : List Token}

theorem keeps_guardCondition {header : Token} (hheader : header ∈ tokens) (keyword : String)
    (text : List Char) :
    Keeps tokens (fun _ => True) (liftM (guardCondition keyword header.line text)) := by
  unfold guardCondition
  split
  · exact keeps_throw (pinned_line hheader (by simp [ScriptFault.code, ConditionError.code]))
  · split
    · exact keeps_pure trivial
    · exact keeps_throw (pinned_line hheader (by simp [ScriptFault.code, ConditionError.code]))

theorem keeps_commandOrCall {header : Token} (hheader : header ∈ tokens) (content : List Char) :
    Keeps tokens (fun _ => True) (liftM (commandOrCall header content)) := by
  unfold commandOrCall
  split
  · exact keeps_throw (pinned_line hheader (by simp [ScriptFault.code]))
  · split <;> exact keeps_pure trivial

theorem keeps_noteDynamic : Keeps tokens (fun _ => True) noteDynamic :=
  fun _ => trivial

theorem code_loop (e : LoopError) :
    201 ≤ (ScriptFault.loop e).code ∧ (ScriptFault.loop e).code ≤ 211 := by
  cases e <;> simp [ScriptFault.code, LoopError.code]

/-- A text that is no function header, tested for one header after the other. -/
theorem keepsTokens_text {n line : Nat} {content : String} {ts : List Token}
    (hstatement : ∀ ts, ts ⊆ tokens → KeepsTokens tokens (statement n ts))
    (hheader : ⟨.text content, line⟩ ∈ tokens) (hts : ts ⊆ tokens) :
    KeepsTokens tokens (statement (n + 1) (⟨.text content, line⟩ :: ts)) := by
  -- the forms are tried in the order of the reader, and each has its errors in the header's line
  have hblock := keepsTokens_block hstatement n hts
  rw [statement]
  dsimp only
  split
  · refine keeps_noteDynamic.bind fun _ _ => ?_
    refine (keeps_guardCondition hheader "if" _).bind fun condition _ => ?_
    refine hblock.bind fun consequent hmid => ?_
    have halternative := keepsTokens_alternative hstatement n hheader hmid
    exact halternative.bind fun alternate hrest => keeps_pure hrest
  · split
    · refine keeps_noteDynamic.bind fun _ _ => ?_
      refine (keeps_guardCondition hheader "while" _).bind fun condition _ => ?_
      exact hblock.bind fun body hrest => keeps_pure hrest
    · split
      · split
        · exact keeps_throw (pinned_line hheader (code_loop _))
        · exact hblock.bind fun body hrest => keeps_pure hrest
      · exact (keeps_commandOrCall hheader _).bind fun s _ => keeps_pure hts

theorem keepsTokens_statement (n : Nat) :
    ∀ ts, ts ⊆ tokens → KeepsTokens tokens (statement n ts) := by
  induction n with
  | zero => exact fun ts hts => keeps_throw (pinned_here hts (by decide))
  | succ n ih =>
      intro ts hts
      cases ts with
      | nil => exact keeps_throw (pinned_here hts (by decide))
      | cons header ts =>
          obtain ⟨hheader, hrest⟩ := List.cons_subset.mp hts
          obtain ⟨kind, line⟩ := header
          cases kind with
          | text content => exact keepsTokens_text ih hheader hrest
          | otherwise => exact keeps_throw (pinned_line hheader (by decide))
          | lbrace | rbrace => exact keeps_throw (pinned_line hheader (by simp [ScriptFault.code]))

theorem keeps_definedName {header : Token} (hheader : header ∈ tokens) (known : List FunctionDef) :
    Keeps tokens (fun _ => True) (liftM (definedName known header)) := by
  unfold definedName
  dsimp only
  split
  · exact keeps_throw (pinned_line hheader (by simp [ScriptFault.code]))
  · split
    · exact keeps_throw (pinned_line hheader (by simp [ScriptFault.code]))
    · split
      · exact keeps_throw (pinned_line hheader (by simp [ScriptFault.code]))
      · exact keeps_pure trivial

theorem keeps_items (n k : Nat) : ∀ (known : List FunctionDef) (ts : List Token), ts ⊆ tokens →
    Keeps tokens (fun _ => True) (items n k known ts) := by
  induction k with
  | zero => exact fun known ts hts => keeps_pure trivial
  | succ k ih =>
      intro known ts hts
      cases ts with
      | nil => exact keeps_pure trivial
      | cons t ts =>
          obtain ⟨ht, hrest⟩ := List.cons_subset.mp hts
          rw [items]
          -- the tokens left are among the tokens of the script, so the next item keeps to them too
          split
          · have hdefinition : KeepsTokens tokens (definition n known t ts) := by
              apply (keeps_definedName ht known).bind
              intro name _
              have hblock := keepsTokens_block (keepsTokens_statement n) n hrest
              exact hblock.bind fun _ hbody => keeps_pure hbody
            exact hdefinition.bind fun f hf => ih _ _ hf
          · apply (keepsTokens_statement n _ hts).bind
            intro first hfirst
            exact (ih known _ hfirst).bind fun _ _ => keeps_pure trivial

end Statements

/-! ## Calls and their tokens -/

/-- The token is the call, as it was written. -/
def WrittenAs (site : CallSite) (t : Token) : Prop :=
  t.source = site.source ∧ ∃ name, CallHeader t.text.toList name ∧ site.name = String.ofList name

/-- One of the tokens is the call. -/
def IsWritten (tokens : List Token) (site : CallSite) : Prop :=
  ∃ t ∈ tokens, WrittenAs site t

theorem IsWritten.mono {site : CallSite} {ts us : List Token} (h : IsWritten ts site)
    (hsubset : ts ⊆ us) : IsWritten us site := by
  obtain ⟨t, ht, hwritten⟩ := h
  exact ⟨t, hsubset ht, hwritten⟩

theorem IsWritten.cons {site : CallSite} {ts : List Token} (h : IsWritten ts site) (t : Token) :
    IsWritten (t :: ts) site :=
  h.mono (List.subset_cons_self t ts)

/-- A call stands somewhere in a phrase. -/
def Phrase.HasCall (site : CallSite) : Phrase → Prop
  | .conditional s | .statement s => s.HasCall site
  | .statements ss | .block ss => Stmt.BlockHasCall site ss
  | .alternative alternate => ∃ ss ∈ alternate, Stmt.BlockHasCall site ss

theorem hasCall_ifWith {site : CallSite} {condition : Condition} {consequent : List Stmt}
    {alternate : Option (List Stmt)} {source : SourceRef} :
    (Stmt.ifWith condition consequent alternate source).HasCall site ↔
      Stmt.BlockHasCall site consequent ∨ ∃ ss ∈ alternate, Stmt.BlockHasCall site ss := by
  cases alternate with
  | none => simp [Stmt.ifWith, Stmt.hasCall_ifThen]
  | some ss => simp [Stmt.ifWith, Stmt.hasCall_ifElse]

/-- A call that stands in a phrase was written as one of its tokens. -/
theorem Derives.isWritten {site : CallSite} {ts rest : List Token} {phrase : Phrase}
    (h : Derives ts phrase rest) : phrase.HasCall site → IsWritten ts site := by
  -- a call of the phrase is in a header, or in the part that was read behind it
  induction h with
  | conditional _ _ hblock _ ihblock ihelse =>
      intro hcall
      rcases hasCall_ifWith.mp hcall with hcall | hcall
      · exact (ihblock hcall).cons _
      · exact ((ihelse hcall).mono hblock.subset).cons _
  | plain _ =>
      rintro ⟨ss, hss, _⟩
      cases hss
  | elseBlock _ ih =>
      rintro ⟨ss, hss, hcall⟩
      cases hss
      exact (ih hcall).cons _
  | elseIf _ ih =>
      rintro ⟨ss, hss, hcall⟩
      cases hss
      obtain ⟨s, hs, hcall⟩ := hcall
      obtain rfl := List.mem_singleton.mp hs
      exact (ih hcall).cons _
  | ofConditional _ ih => exact ih
  | whileDo _ _ _ ih => exact fun hcall => (ih (Stmt.hasCall_whileDo.mp hcall)).cons _
  | loop _ _ _ ih => exact fun hcall => (ih (Stmt.hasCall_loop.mp hcall)).cons _
  | command _ _ =>
      intro hcall
      cases hcall
  | call hheader _ =>
      intro hcall
      obtain rfl := Stmt.hasCall_call.mp hcall
      exact ⟨_, List.mem_cons_self .., rfl, _, hheader, rfl⟩
  | nil =>
      rintro ⟨s, hs, _⟩
      cases hs
  | cons hfirst _ ihfirst ihmore =>
      intro hcall
      rcases Stmt.blockHasCall_cons.mp hcall with hcall | hcall
      · exact ihfirst hcall
      · exact (ihmore hcall).mono hfirst.subset
  | block _ ih => exact fun hcall => (ih hcall).cons _

/-- A call of a script was written as one of its tokens. -/
theorem DerivesScript.isWritten {site : CallSite} {tokens : List Token} {main : List Stmt}
    {functions : List FunctionDef} (h : DerivesScript tokens main functions)
    (hsite : Stmt.BlockHasCall site main ∨ ∃ f ∈ functions, Stmt.BlockHasCall site f.body) :
    IsWritten tokens site := by
  induction h with
  | nil => simp [Stmt.BlockHasCall] at hsite
  | statement hs _ ih =>
      rw [Stmt.blockHasCall_cons, or_assoc] at hsite
      rcases hsite with hfirst | hsite
      · exact hs.isWritten hfirst
      · exact (ih hsite).mono hs.subset
  | function _ hblock _ ih =>
      simp only [List.mem_cons, exists_eq_or_imp] at hsite
      rcases hsite with hmain | hbody | hlater
      · exact ((ih (.inl hmain)).mono hblock.subset).cons _
      · exact (hblock.isWritten hbody).cons _
      · exact ((ih (.inr hlater)).mono hblock.subset).cons _

/-- An error about a call names a call of the script. -/
theorem Justified.isWritten {tokens : List Token} {main : List Stmt} {functions : List FunctionDef}
    {e : CallError} (h : Justified main functions e)
    (hderived : DerivesScript tokens main functions) : IsWritten tokens e.site := by
  have hoccurs : Occurs main functions e.site := by
    cases h with
    | undefined hsite _ => exact hsite
    | recursive hsite _ => exact hsite
  refine hderived.isWritten ?_
  rcases hoccurs with hmain | ⟨name, body, hbody, hsite⟩
  · exact .inl hmain
  · obtain ⟨f, hf, rfl⟩ := Option.map_eq_some_iff.mp hbody
    exact .inr ⟨f, List.mem_of_find?_eq_some hf, hsite⟩

/-! ## Mishaps of a whole script -/

/-- What the first mishap of a script can be. -/
inductive Explained (tokens : List Token) : Mishap → Prop
  | empty : tokens = [] → Explained tokens ⟨.empty, .nowhere⟩
  | pinned {m : Mishap} : tokens ≠ [] → Pinned tokens m → Explained tokens m
  | noMain : tokens ≠ [] → Explained tokens ⟨.noMain, .nowhere⟩
  | call {main : List Stmt} {functions : List FunctionDef} {error : CallError} :
      DerivesScript tokens main functions → Justified main functions error →
      Explained tokens (ofCallError error)

/-- The count does not fail if the check of the calls has not. -/
theorem exists_of_assemble_eq_error {main : List Stmt} {functions : List FunctionDef}
    {dynamic : Bool} {m : Mishap} (h : assemble main functions dynamic = .error m) :
    ∃ e, checkCalls main functions = .error e ∧ m = ofCallError e := by
  unfold assemble at h
  rcases bind_eq_error_iff.mp h with hcheck | ⟨_, _, h⟩
  · obtain ⟨e, he, rfl⟩ := mapError_eq_error_iff.mp hcheck
    exact ⟨e, he, rfl⟩
  · rcases bind_eq_error_iff.mp h with hcount | ⟨_, _, h⟩
    · obtain ⟨e, he, rfl⟩ := mapError_eq_error_iff.mp hcount
      exact ⟨e, checkCalls_of_commandCount_error he, rfl⟩
    · cases h

theorem explained_of_parse {tokens : List Token} {m : Mishap} (h : parse tokens = .error m) :
    Explained tokens m := by
  unfold parse at h
  split at h
  · next hempty =>
    cases h
    exact .empty (List.isEmpty_iff.mp hempty)
  · -- an error of an item has its place; the calls are checked when all items are read
    next hempty =>
    have hne : tokens ≠ [] := fun hnil => hempty (List.isEmpty_iff.mpr hnil)
    rcases bind_eq_error_iff.mp h with hitems | ⟨⟨⟨main, functions⟩, dynamic⟩, hitems, h⟩
    · have hkeeps := keeps_items tokens.length tokens.length [] tokens (List.Subset.refl _) false
      rw [StateT.run] at hitems
      rw [hitems] at hkeeps
      exact .pinned hne hkeeps
    · dsimp only at h
      split at h
      · cases h
        exact .noMain hne
      · obtain ⟨e, he, rfl⟩ := exists_of_assemble_eq_error h
        obtain ⟨defined, hdefined, hderived, _⟩ := items_sound _ _ (Nat.le_refl _) hitems
        rw [List.nil_append] at hdefined
        subst hdefined
        exact .call hderived (justified_of_checkCalls he)

/-! ## Errors with their lines -/

/-- A line of a script on which one of its tokens stands. -/
structure TokenLine (source : Source) (n : Nat) : Prop where
  first : 1 ≤ n
  last : n ≤ source.lineCount
  token : ∃ t ∈ Token.ofSource source, t.line = n

theorem tokenLine_of_mem {source : Source} {t : Token} (h : t ∈ Token.ofSource source) :
    TokenLine source t.line :=
  ⟨(Token.line_of_mem_ofSource h).1, (Token.line_of_mem_ofSource h).2, t, h, rfl⟩

/-- The token is a call that the script must not make. -/
def Offends (source : Source) (fault : ScriptFault) (t : Token) : Prop :=
  ∃ main functions error, fault = .call error ∧
    DerivesScript (Token.ofSource source) main functions ∧ Justified main functions error ∧
    WrittenAs error.site t

/-- The diagnostic shows a line of the script, or a token on it. -/
structure Placed (source : Source) (fault : ScriptFault) (d : Diagnostic) (n : Nat) : Prop where
  line : d.line = some n
  real : TokenLine source n
  grammar : d.code < 300 → ∃ line, source.line? n = some line ∧
    d.sourceLine = some (String.ofList (Text.trim line))
  call : 300 ≤ d.code → ∃ t ∈ Token.ofSource source, t.line = n ∧ d.sourceLine = some t.text ∧
    Offends source fault t

theorem code_toDiagnostic (e : ScriptError) : e.toDiagnostic.code = e.fault.code := by
  obtain ⟨fault, site⟩ := e
  cases site <;> rfl

/-- The end of a script is the line of its last token. -/
theorem resolve_of_pinned {source : Source} {m : Mishap} (hne : Token.ofSource source ≠ [])
    (h : Pinned (Token.ofSource source) m) : ∃ t ∈ Token.ofSource source,
      m.place.resolve source (Token.ofSource source) = some (shownLine source t.line) := by
  rcases h.place with hplace | ⟨t, ht, hplace⟩
  · refine ⟨_, List.getLast_mem hne, ?_⟩
    rw [hplace, Place.resolve, List.getLast?_eq_some_getLast hne]
    rfl
  · exact ⟨t, ht, by rw [hplace, Place.resolve]⟩

theorem placed_shownLine {source : Source} {fault : ScriptFault} (hcode : fault.code < 300)
    {t : Token} (ht : t ∈ Token.ofSource source) :
    Placed source fault (ScriptError.toDiagnostic ⟨fault, some (shownLine source t.line)⟩)
      t.line where
  line := rfl
  real := tokenLine_of_mem ht
  grammar := fun _ => by
    obtain ⟨line, hline⟩ := Source.exists_line?_iff.mpr (Token.line_of_mem_ofSource ht)
    exact ⟨line, hline, by simp [ScriptError.toDiagnostic, Diagnostic.atLine, shownLine, hline]⟩
  call := fun hcall => by
    rw [code_toDiagnostic] at hcall
    exact absurd hcode (Nat.not_lt.mpr hcall)

theorem placed_of_justified {source : Source} {main : List Stmt} {functions : List FunctionDef}
    {error : CallError} (hderived : DerivesScript (Token.ofSource source) main functions)
    (h : Justified main functions error) : Placed source (.call error)
      (ScriptError.toDiagnostic ⟨.call error, some error.site.source⟩) error.site.source.line := by
  obtain ⟨t, ht, hwritten⟩ := h.isWritten hderived
  have hsource : t.source = error.site.source := hwritten.1
  have hline : t.line = error.site.source.line := congrArg SourceRef.line hsource
  have htext : t.text = error.site.source.text := congrArg SourceRef.text hsource
  refine ⟨rfl, hline ▸ tokenLine_of_mem ht, fun hlow => ?_, fun _ => ?_⟩
  · rw [code_toDiagnostic] at hlow
    exact absurd hlow (by cases error <;> simp [ScriptFault.code, CallError.code])
  · exact ⟨t, ht, hline, congrArg some htext.symm, main, functions, error, rfl, hderived, h,
      hwritten⟩

/-- **Errors of scripts point at real lines.**  The script is empty, or consists of functions only,
and then there is no line to show.  Every other error shows the line of one of the tokens, with its
text; an error about a call shows the call.

Lines are counted in words of 32 bits, which the text must not be too long for. -/
theorem placed_of_read (text : String) (e : ScriptError) (h : read text = .error e) :
    let source := Source.ofString text
    let d := e.toDiagnostic
    ((200 ≤ d.code ∧ d.code ≤ 212) ∨ d.code = 300 ∨ d.code = 301) ∧
    (d.code = 200 ↔ Token.ofSource source = []) ∧
    (d.code = 200 ∨ d.code = 212 → d.line = none) ∧
    (d.code ≠ 200 → d.code ≠ 212 → ∃ n, Placed source e.fault d n) := by
  intro source d
  obtain ⟨m, hm, rfl⟩ := mapError_eq_error_iff.mp h
  have hcode : d.code = m.fault.code := code_toDiagnostic _
  rw [hcode]
  -- the four ways to fail, from the empty script to the check of the calls
  cases explained_of_parse hm with
  | empty hempty =>
      exact ⟨.inl (by decide), iff_of_true rfl hempty, fun _ => rfl, fun hne => absurd rfl hne⟩
  | noMain hne =>
      exact ⟨.inl (by decide), iff_of_false (by decide) hne, fun _ => rfl,
        fun _ hne => absurd rfl hne⟩
  | pinned hne hpinned =>
      obtain ⟨hlow, hhigh⟩ := hpinned.code
      obtain ⟨t, ht, hplace⟩ := resolve_of_pinned hne hpinned
      refine ⟨.inl (by omega), iff_of_false (by omega) hne, fun hcode => by omega, fun _ _ => ?_⟩
      have hd : d = ScriptError.toDiagnostic ⟨m.fault, some (shownLine source t.line)⟩ :=
        congrArg (fun site => ScriptError.toDiagnostic ⟨m.fault, site⟩) hplace
      have hlt : m.fault.code < 300 := by omega
      exact ⟨t.line, hd ▸ placed_shownLine hlt ht⟩
  | @call main functions error hderived hjustified =>
      have hcall : (ofCallError error).fault.code = 300 ∨ (ofCallError error).fault.code = 301 := by
        cases error with
        | undefined site => exact .inl rfl
        | recursive site => exact .inr rfl
      obtain ⟨t, ht, _⟩ := hjustified.isWritten hderived
      have hne : Token.ofSource source ≠ [] := List.ne_nil_of_mem ht
      refine ⟨.inr hcall, iff_of_false (by omega) hne, fun hcode => by omega, fun _ _ => ?_⟩
      exact ⟨_, placed_of_justified hderived hjustified⟩

theorem placed_of_read_open_block_and_cycle :
    (∃ n, Placed (.ofString "turnLeft()\r\n  if isOnGem \x7b // open\n f()") .unclosedBlock
      (ScriptError.toDiagnostic ⟨.unclosedBlock, some ⟨2, "if isOnGem \x7b // open"⟩⟩) n) ∧
    ∃ n, Placed (.ofString "func f() \x7b\n f ( ) /* again */ \x7d\nf()")
      (.call (.recursive ⟨"f", ⟨2, "f ( )"⟩⟩)) (ScriptError.toDiagnostic
        ⟨.call (.recursive ⟨"f", ⟨2, "f ( )"⟩⟩), some ⟨2, "f ( )"⟩⟩) n := by
  have hopen : read "turnLeft()\r\n  if isOnGem \x7b // open\n f()" =
      .error ⟨.unclosedBlock, some ⟨2, "if isOnGem \x7b // open"⟩⟩ :=
    errorOf?_eq_some_iff.mp (by decide +kernel)
  have hcycle : read "func f() \x7b\n f ( ) /* again */ \x7d\nf()" =
      .error ⟨.call (.recursive ⟨"f", ⟨2, "f ( )"⟩⟩), some ⟨2, "f ( )"⟩⟩ :=
    errorOf?_eq_some_iff.mp (by decide +kernel)
  obtain ⟨_, _, _, hplaced⟩ := placed_of_read _ _ hopen
  obtain ⟨_, _, _, hplaced'⟩ := placed_of_read _ _ hcycle
  exact ⟨hplaced (by decide) (by decide), hplaced' (by decide) (by decide)⟩

end GemGrid.Script
