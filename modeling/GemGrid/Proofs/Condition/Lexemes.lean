import GemGrid.Proofs.Condition.Spelling
import Mathlib

/-!
# What the tokens of a condition can be written as

`Spells ts cs` says what it is for a text to spell tokens, without any mention of how it is scanned:
the text is a row of lexemes with blanks around them, one lexeme for each token, and between two
words there is at least one blank.  `scan_exact` says that the scan of a condition gives the tokens
that the condition spells, and fails if it spells none.

* `spells_of_scanFrom`: what has been scanned spells the tokens.  The induction goes along the scan,
  so the letters collected so far are part of the statement.
* `scanFrom_of_spelledBy`: what spells tokens is scanned as these, by induction on the lexemes.
-/

namespace GemGrid.ConditionToken

open Text

/-! ## Spellings -/

/-- The ways to write one token. -/
inductive Lexeme : ConditionToken → List Char → Prop
  | and : Lexeme .and ['&', '&']
  | or : Lexeme .or ['|', '|']
  | lparen : Lexeme .lparen ['(']
  | rparen : Lexeme .rparen [')']
  | bang : Lexeme .not ['!']
  | notWord {word : List Char} : sameWord "not" word = true → Lexeme .not word
  | ident {name : List Char} : isName name = true → sameWord "not" name = false →
      Lexeme (.ident (String.ofList name)) name

/-- A lexeme and what stands between it and the next one. -/
structure Chunk where
  lexeme : List Char
  gap : List Char

/-- The characters of a chunk. -/
def Chunk.text (chunk : Chunk) : List Char :=
  chunk.lexeme ++ chunk.gap

/-- Blanks, then one chunk for each token.  Words do not touch. -/
structure SpelledBy (lead : List Char) (chunks : List Chunk) (ts : List ConditionToken) : Prop where
  lead : ∀ c ∈ lead, isBlank c = true
  gaps : ∀ chunk ∈ chunks, ∀ c ∈ chunk.gap, isBlank c = true
  lexemes : List.Forall₂ Lexeme ts (chunks.map (·.lexeme))
  apart : chunks.IsChain fun p q => isName p.lexeme = true → isName q.lexeme = true → p.gap ≠ []

/-- The text is a spelling of the tokens. -/
def Spells (ts : List ConditionToken) (cs : List Char) : Prop :=
  ∃ lead chunks, SpelledBy lead chunks ts ∧ cs = lead ++ chunks.flatMap Chunk.text

/-! ## Lexemes -/

theorem isName_of_isAlpha {word : List Char} (hne : word ≠ [])
    (h : ∀ c ∈ word, c.isAlpha = true) : isName word = true := by
  have hstart : ∀ c ∈ word, isNameStart c = true := fun c hc => by
    rw [isNameStart, h c hc, Bool.true_or]
  cases word with
  | nil => exact absurd rfl hne
  | cons c word =>
      obtain ⟨hc, hword⟩ := List.forall_mem_cons.mp hstart
      rw [isName, hc, Bool.true_and, List.all_eq_true]
      exact fun d hd => isNameChar_of_isNameStart (hword d hd)

/-- The word `not`, in any letter case, is a word. -/
theorem isName_of_not {word : List Char} (h : sameWord "not" word = true) : isName word = true := by
  have hletters : word.map Char.toLower = "not".toList := eq_of_beq h
  refine isName_of_isAlpha (fun hnil => ?_) fun c hc => ?_
  · rw [hnil] at hletters
    cases hletters
  · have hmem : c.toLower ∈ "not".toList := hletters ▸ List.mem_map_of_mem hc
    have halpha : ∀ d ∈ "not".toList, d.isAlpha = true := List.all_eq_true.mp (by decide)
    rw [← Char.isAlpha_toLower_eq_isAlpha]
    exact halpha _ hmem

theorem lexeme_ofWord {word : List Char} (h : isName word = true) : Lexeme (ofWord word) word := by
  unfold ofWord
  split
  · next hnot => exact .notWord hnot
  · next hnot => exact .ident h (Bool.eq_false_iff.mpr hnot)

/-- A lexeme is a sign or a word. -/
theorem Lexeme.sign_or_word {t : ConditionToken} {lexeme : List Char} (h : Lexeme t lexeme) :
    ((∀ name, t ≠ .ident name) ∧ lexeme = t.render.toList ∧ isName lexeme = false) ∨
      (isName lexeme = true ∧ t = ofWord lexeme) := by
  cases h with
  | and | or | lparen | rparen | bang => exact .inl ⟨by simp, rfl, by decide⟩
  | notWord hnot => exact .inr ⟨isName_of_not hnot, by rw [ofWord, if_pos hnot]⟩
  | ident hname hnot => exact .inr ⟨hname, by rw [ofWord, hnot]; rfl⟩

/-- The spelling of a sign is a lexeme, no word, and does not go on with a word. -/
theorem lexeme_sign {t : ConditionToken} (ht : ∀ name, t ≠ .ident name) :
    Lexeme t t.render.toList ∧ isName t.render.toList = false ∧
      ∀ rest, ∀ c ∈ (t.render.toList ++ rest).head?, isNameChar c = false := by
  cases t with
  | ident name => exact absurd rfl (ht name)
  | and | or | not | lparen | rparen =>
      refine ⟨by constructor, by decide, fun rest c hc => ?_⟩
      obtain rfl := Option.some.inj hc
      decide

/-! ## What is scanned is spelled -/

theorem Spells.nil : Spells [] [] :=
  ⟨[], [], ⟨by simp, by simp, .nil, .nil⟩, rfl⟩

theorem Spells.blank {ts : List ConditionToken} {c : Char} {cs : List Char} (h : Spells ts cs)
    (hc : isBlank c = true) : Spells ts (c :: cs) := by
  obtain ⟨lead, chunks, hspelled, rfl⟩ := h
  exact ⟨c :: lead, chunks, { hspelled with lead := List.forall_mem_cons.mpr ⟨hc, hspelled.lead⟩ },
    rfl⟩

theorem exists_isNameStart {word : List Char} (h : isName word = true) :
    ∃ c rest, word = c :: rest ∧ isNameStart c = true := by
  cases word with
  | nil => cases h
  | cons c rest =>
      rw [isName, Bool.and_eq_true] at h
      exact ⟨c, rest, rfl, h.1⟩

/-- A lexeme can be put in front of a spelling, a word only if what follows does not go on with it.
-/
theorem Spells.cons {t : ConditionToken} {ts : List ConditionToken} {lexeme cs : List Char}
    (h : Spells ts cs) (ht : Lexeme t lexeme)
    (hend : isName lexeme = true → ∀ c ∈ cs.head?, isNameChar c = false) :
    Spells (t :: ts) (lexeme ++ cs) := by
  obtain ⟨lead, chunks, hspelled, rfl⟩ := h
  have hapart : ∀ q ∈ chunks.head?, isName lexeme = true → isName q.lexeme = true → lead ≠ [] := by
    rintro q hq hword hnext rfl
    -- without a gap the next word would start with a letter right behind this one
    obtain ⟨rest, rfl⟩ := List.head?_eq_some_iff.mp hq
    obtain ⟨c, letters, hletters, hstart⟩ := exists_isNameStart hnext
    have hnot := hend hword c (by simp [Chunk.text, hletters])
    rw [isNameChar_of_isNameStart hstart] at hnot
    cases hnot
  refine ⟨[], ⟨lexeme, lead⟩ :: chunks, ⟨by simp, ?_, .cons ht hspelled.lexemes, ?_⟩, ?_⟩
  · exact List.forall_mem_cons.mpr ⟨hspelled.lead, hspelled.gaps⟩
  · exact List.isChain_cons.mpr ⟨hapart, hspelled.apart⟩
  · simp [Chunk.text]

/-- The letters collected by a scan are none, or a word. -/
def Collected (word : List Char) : Prop :=
  word = [] ∨ isName word.reverse = true

theorem Collected.letter {word : List Char} (h : Collected word) {c : Char}
    (hc : (isNameStart c || (!word.isEmpty && isNameChar c)) = true) : Collected (c :: word) := by
  rcases h with rfl | h
  · exact .inr (by simpa [isName] using hc)
  · obtain ⟨first, rest, hword, hstart⟩ := exists_isNameStart h
    rw [hword, isName, Bool.and_eq_true] at h
    refine .inr ?_
    rw [List.reverse_cons, hword, List.cons_append, isName, hstart, Bool.true_and, List.all_append,
      h.2, Bool.true_and]
    simpa using isNameChar_of_letter hc

/-- The word that was collected can be put in front of what ends it. -/
theorem Spells.flush {word : List Char} (hword : Collected word) {ts : List ConditionToken}
    {cs : List Char} (h : Spells ts cs) (hend : ∀ c ∈ cs.head?, isNameChar c = false) :
    Spells (flush word ++ ts) (word.reverse ++ cs) := by
  rcases hword with rfl | hword
  · exact h
  · have hne : word.isEmpty = false := by
      rw [List.isEmpty_eq_false_iff]
      rintro rfl
      cases hword
    rw [ConditionToken.flush, hne]
    exact h.cons (lexeme_ofWord hword) fun _ => hend

/-- A sign ends the word before it, and the scan goes on behind it. -/
theorem spells_of_sign {t : ConditionToken} (ht : ∀ name, t ≠ .ident name) {word cs : List Char}
    {ts : List ConditionToken} (h : (do return flush word ++ t :: (← scanFrom [] cs)) = .ok ts)
    (hword : Collected word) (ih : ∀ us, scanFrom [] cs = .ok us → Spells us cs) :
    Spells ts (word.reverse ++ (t.render.toList ++ cs)) := by
  obtain ⟨us, hus, heq⟩ := exists_of_bind_eq_ok h
  cases heq
  obtain ⟨hlexeme, hsign, hhead⟩ := lexeme_sign ht
  refine ((ih us hus).cons hlexeme fun hname => ?_).flush hword (hhead cs)
  rw [hsign] at hname
  cases hname

theorem spells_of_scanFrom {word cs : List Char} {ts : List ConditionToken}
    (h : scanFrom word cs = .ok ts) (hword : Collected word) : Spells ts (word.reverse ++ cs) := by
  fun_induction scanFrom word cs generalizing ts with
  | case1 word =>
      cases h
      simpa using Spells.nil.flush hword (by simp)
  | case2 word cs ih =>
      exact spells_of_sign (t := .and) (by simp) h hword fun us hus => ih hus (.inl rfl)
  | case3 word cs ih =>
      exact spells_of_sign (t := .or) (by simp) h hword fun us hus => ih hus (.inl rfl)
  | case4 word cs ih =>
      exact spells_of_sign (t := .not) (by simp) h hword fun us hus => ih hus (.inl rfl)
  | case5 word cs ih =>
      exact spells_of_sign (t := .lparen) (by simp) h hword fun us hus => ih hus (.inl rfl)
  | case6 word cs ih =>
      exact spells_of_sign (t := .rparen) (by simp) h hword fun us hus => ih hus (.inl rfl)
  | case7 word c cs _ _ _ _ _ hblank ih =>
      obtain ⟨us, hus, heq⟩ := exists_of_bind_eq_ok h
      cases heq
      -- the letters collected so far are a word of their own, as a blank is no letter
      refine ((ih hus (.inl rfl)).blank hblank).flush hword fun d hd => ?_
      obtain rfl := Option.some.inj hd
      exact isNameChar_eq_false_of_isBlank hblank
  | case8 word c cs _ _ _ _ _ _ hletter ih =>
      have hspells := ih h (hword.letter hletter)
      rwa [List.reverse_cons, List.append_assoc] at hspells
  | case9 word c cs => cases h

/-! ## What is spelled is scanned -/

theorem scanFrom_blanks {gap cs : List Char} {ts : List ConditionToken}
    (h : scanFrom [] cs = .ok ts) (hgap : ∀ c ∈ gap, isBlank c = true) :
    scanFrom [] (gap ++ cs) = .ok ts := by
  induction gap with
  | nil => exact h
  | cons c gap ih =>
      obtain ⟨hc, hgap⟩ := List.forall_mem_cons.mp hgap
      rw [List.cons_append, scanFrom_blank hc, ih hgap]
      rfl

/-- The first chunk is a lexeme of the first token, and its gap leads the spelling of the others. -/
theorem SpelledBy.uncons {lead : List Char} {chunk : Chunk} {chunks : List Chunk}
    {ts : List ConditionToken} (h : SpelledBy lead (chunk :: chunks) ts) :
    ∃ t us, ts = t :: us ∧ Lexeme t chunk.lexeme ∧ SpelledBy chunk.gap chunks us ∧
      ∀ q ∈ chunks.head?, isName chunk.lexeme = true → isName q.lexeme = true → chunk.gap ≠ [] := by
  obtain ⟨t, us, ht, hus, rfl⟩ := List.forall₂_cons_right_iff.mp h.lexemes
  obtain ⟨hgap, hgaps⟩ := List.forall_mem_cons.mp h.gaps
  obtain ⟨hnext, hapart⟩ := List.isChain_cons.mp h.apart
  exact ⟨t, us, rfl, ht, ⟨hgap, hgaps, hus, hapart⟩, hnext⟩

/-- What stands behind a word does not go on with it. -/
theorem SpelledBy.not_isNameChar {lead : List Char} {chunks : List Chunk}
    {ts : List ConditionToken} (h : SpelledBy lead chunks ts)
    (hapart : ∀ q ∈ chunks.head?, isName q.lexeme = true → lead ≠ []) :
    ∀ c ∈ (lead ++ chunks.flatMap Chunk.text).head?, isNameChar c = false := by
  cases lead with
  | cons b lead =>
      intro c hc
      obtain rfl := Option.some.inj hc
      exact isNameChar_eq_false_of_isBlank (h.lead b (List.mem_cons_self ..))
  | nil =>
      cases chunks with
      | nil => simp
      | cons q chunks =>
          obtain ⟨t, us, rfl, ht, -⟩ := h.uncons
          -- only a sign may follow without a gap, and a sign does not start with a letter
          rcases ht.sign_or_word with ⟨hsign, hlexeme, -⟩ | ⟨hword, -⟩
          · rw [List.nil_append, List.flatMap_cons, Chunk.text, hlexeme, List.append_assoc]
            exact (lexeme_sign hsign).2.2 _
          · exact absurd rfl (hapart q rfl hword)

theorem scanFrom_of_spelledBy {lead : List Char} {chunks : List Chunk} {ts : List ConditionToken}
    (h : SpelledBy lead chunks ts) :
    scanFrom [] (lead ++ chunks.flatMap Chunk.text) = .ok ts := by
  induction chunks generalizing lead ts with
  | nil =>
      obtain rfl : ts = [] := by simpa using h.lexemes
      exact scanFrom_blanks rfl h.lead
  | cons chunk chunks ih =>
      obtain ⟨t, us, rfl, ht, hrest, hapart⟩ := h.uncons
      refine scanFrom_blanks ?_ h.lead
      rw [List.flatMap_cons, Chunk.text, List.append_assoc]
      -- a sign is scanned at once, a word letter by letter up to what is no letter
      rcases ht.sign_or_word with ⟨hsign, hlexeme, -⟩ | ⟨hword, rfl⟩
      · rw [hlexeme]
        exact scanFrom_sign t hsign (ih hrest)
      · exact scanFrom_word hword (hrest.not_isNameChar fun q hq => hapart q hq hword) (ih hrest)

/-! ## The scan is exact -/

theorem scanFrom_eq_ok_iff {cs : List Char} {ts : List ConditionToken} :
    scanFrom [] cs = .ok ts ↔ Spells ts cs := by
  constructor
  · intro h
    exact spells_of_scanFrom h (.inl rfl)
  · intro h
    obtain ⟨lead, chunks, hspelled, rfl⟩ := h
    exact scanFrom_of_spelledBy hspelled

theorem scan_eq_ok_iff {cs : List Char} {ts : List ConditionToken} :
    scan cs = .ok ts ↔ ts ≠ [] ∧ Spells ts cs := by
  rw [← scanFrom_eq_ok_iff]
  constructor
  · intro h
    obtain ⟨us, hus, h⟩ := exists_of_bind_eq_ok h
    cases us with
    | nil => cases h
    | cons u us =>
        cases h
        exact ⟨by simp, hus⟩
  · intro ⟨hne, h⟩
    rw [scan, h]
    cases ts with
    | nil => exact absurd rfl hne
    | cons t ts => rfl

/-- **The tokens of a condition are the tokens that it spells.**  A condition that spells none is an
error, with the number of all errors in conditions. -/
theorem scan_exact (text : List Char) :
    (∀ ts, scan text = .ok ts ↔ ts ≠ [] ∧ Spells ts text) ∧
    ((∃ e, scan text = .error e ∧ e.toDiagnostic.code = 206) ↔
      ¬ ∃ ts, ts ≠ [] ∧ Spells ts text) := by
  refine ⟨fun ts => scan_eq_ok_iff, ?_⟩
  have hspelled : (∃ ts, ts ≠ [] ∧ Spells ts text) ↔ ∃ ts, scan text = .ok ts :=
    exists_congr fun ts => scan_eq_ok_iff.symm
  rw [hspelled]
  cases hscan : scan text with
  | error e => exact iff_of_true ⟨e, rfl, rfl⟩ (by simp)
  | ok ts => exact iff_of_false (by simp) (not_not_intro ⟨ts, rfl⟩)

/-- Words that touch are one word, and a sign ends a word. -/
example : scan "notOnGem&&NOT(x1)".toList =
    .ok [.ident "notOnGem", .and, .not, .lparen, .ident "x1", .rparen] := by rfl

end GemGrid.ConditionToken
