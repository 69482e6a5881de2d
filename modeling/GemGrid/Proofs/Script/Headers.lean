import GemGrid.Proofs.Condition.Spelling
import GemGrid.Script.Header
import Mathlib.Data.List.DropRight

/-!
# What the headers of statements look like

Each form of a header, said as a way to put a text together, with the function that recognises it.

* A guard is its keyword, blanks, and something without a line feed: `GuardHeader`.  The split is
  not unique when that something starts with blanks itself, but what is left of it when it is
  trimmed is.
* A loop is its keyword and a blank, and then anything: `LoopHeader`.
* The word `func` and a blank make a text a definition, whatever follows: `FunctionHeader`.  A
  definition in order has a name and parentheses as well: `FunctionShape`.
* A call is a name and parentheses when the blanks are left out, and no other header:
  `CallHeader`.

The keywords differ in their letters, so no text is a header of two kinds.
-/

namespace GemGrid.Script

open Text

/-! ## Words at the start -/

theorem afterWord?_eq_some_iff {word : String} {cs rest : List Char} :
    afterWord? word cs = some rest ↔ ∃ start, cs = start ++ rest ∧ sameWord word start = true := by
  unfold afterWord?
  constructor
  · intro h
    split at h
    · next hword =>
      cases h
      exact ⟨cs.take word.length, (List.take_append_drop ..).symm, hword⟩
    · cases h
  · rintro ⟨start, rfl, hword⟩
    -- the word is as long as what it was compared with
    have hlength : start.length = word.length := by
      have heq := congrArg List.length (eq_of_beq hword)
      rwa [List.length_map, String.length_toList] at heq
    rw [← hlength, List.take_left, List.drop_left, if_pos hword]

theorem after?_eq_some_iff {text : String} {cs rest : List Char} :
    after? text cs = some rest ↔ cs = text.toList ++ rest := by
  unfold after?
  constructor
  · intro h
    split at h
    · next htext =>
      cases h
      obtain ⟨rest, rfl⟩ := List.isPrefixOf_iff_prefix.mp htext
      rw [← String.length_toList, List.drop_left]
    · cases h
  · rintro rfl
    rw [if_pos (List.isPrefixOf_iff_prefix.mpr (List.prefix_append ..)), ← String.length_toList,
      List.drop_left]

/-- A text that starts with a word starts with its first letter. -/
theorem head?_of_afterWord? {word : String} {cs rest : List Char} (hword : word.toList ≠ [])
    (h : afterWord? word cs = some rest) :
    cs.head?.map Char.toLower = word.toList.head? := by
  obtain ⟨start, rfl, hstart⟩ := afterWord?_eq_some_iff.mp h
  rw [← eq_of_beq hstart] at hword ⊢
  cases start with
  | nil => exact absurd rfl hword
  | cons c start => rfl

theorem startsBlank_eq_true_iff {cs : List Char} :
    startsBlank cs = true ↔ ∃ c rest, cs = c :: rest ∧ isBlank c = true := by
  cases cs <;> simp [startsBlank]

/-! ## Guards -/

/-- A keyword, blanks, and something without a line feed, which is trimmed. -/
inductive GuardHeader (keyword : String) : List Char → List Char → Prop
  | intro {word gap rest : List Char} : sameWord keyword word = true → gap ≠ [] →
      (∀ c ∈ gap, isBlank c = true) → rest ≠ [] → '\n' ∉ rest →
      GuardHeader keyword (word ++ (gap ++ rest)) (trim rest)

theorem trimStart_append_of_blank {gap rest : List Char} (hgap : ∀ c ∈ gap, isBlank c = true) :
    trimStart (gap ++ rest) = trimStart rest :=
  List.dropWhile_append_of_pos hgap

theorem trim_eq_nil {cs : List Char} (h : ∀ c ∈ cs, isBlank c = true) : trim cs = [] := by
  rw [trim, trimStart, List.dropWhile_eq_nil_iff.mpr h, trimEnd_nil]

/-- What a guard is about when the text after its keyword falls into blanks and the rest. -/
theorem guardText?_of_split {keyword : String} {word gap rest : List Char}
    (hword : sameWord keyword word = true) (hgap : ∀ c ∈ gap, isBlank c = true)
    (hrest : trimStart rest = rest) :
    guardText? keyword (word ++ (gap ++ rest)) =
      if gap = [] then none
      else if rest = [] then if 2 ≤ gap.length ∧ gap.getLast? ≠ some '\n' then some [] else none
      else if '\n' ∈ rest then none else some (trim rest) := by
  have hafter : afterWord? keyword (word ++ (gap ++ rest)) = some (gap ++ rest) :=
    afterWord?_eq_some_iff.mpr ⟨word, rfl, hword⟩
  -- the gap is the longest blank start, so the two spans are known
  have hbehind : (gap ++ rest).dropWhile isBlank = rest :=
    (List.dropWhile_append_of_pos hgap).trans hrest
  have hbefore : (gap ++ rest).takeWhile isBlank = gap := by
    have hsplit : (gap ++ rest).takeWhile isBlank ++ (gap ++ rest).dropWhile isBlank = gap ++ rest :=
      List.takeWhile_append_dropWhile
    rw [hbehind] at hsplit
    exact List.append_cancel_right hsplit
  rw [guardText?, hafter]
  simp only [Option.bind_eq_bind, Option.bind_some, hbehind, hbefore, List.isEmpty_iff,
    List.contains_iff_mem]

/-- Every text after a keyword falls into blanks and the rest. -/
theorem exists_split (cs : List Char) : ∃ gap rest, cs = gap ++ rest ∧
    (∀ c ∈ gap, isBlank c = true) ∧ trimStart rest = rest :=
  ⟨cs.takeWhile isBlank, cs.dropWhile isBlank, List.takeWhile_append_dropWhile.symm,
    fun _ => List.mem_takeWhile_imp, List.dropWhile_idempotent ..⟩

theorem guardHeader_of_guardText? {keyword : String} {cs text : List Char}
    (h : guardText? keyword cs = some text) : GuardHeader keyword cs text := by
  obtain ⟨behind, hafter, -⟩ := Option.bind_eq_some_iff.mp h
  obtain ⟨word, rfl, hword⟩ := afterWord?_eq_some_iff.mp hafter
  obtain ⟨gap, rest, rfl, hblank, hrest⟩ := exists_split behind
  rw [guardText?_of_split hword hblank hrest] at h
  by_cases hgap : gap = []
  · rw [if_pos hgap] at h
    cases h
  rw [if_neg hgap] at h
  by_cases hempty : rest = []
  · -- the last blank is what the guard is about
    subst hempty
    rw [if_pos rfl] at h
    split at h
    · next hlast =>
      cases h
      obtain ⟨init, last, rfl⟩ := (List.eq_nil_or_concat' gap).resolve_left hgap
      obtain ⟨hinit, hnofeed⟩ := hlast
      have hheader : GuardHeader keyword (word ++ (init ++ [last])) (trim [last]) := by
        refine .intro hword ?_ ?_ ?_ ?_
        · rintro rfl
          simp at hinit
        · exact fun c hc => hblank c (List.mem_append_left _ hc)
        · simp
        · simpa [eq_comm] using hnofeed
      have htrimmed : trim [last] = [] := trim_eq_nil (by simpa using hblank last (by simp))
      rwa [htrimmed, ← List.append_nil (init ++ [last])] at hheader
    · cases h
  · rw [if_neg hempty] at h
    split at h
    · cases h
    · next hfeed =>
      cases h
      exact .intro hword hgap hblank hempty hfeed

theorem guardText?_of_guardHeader {keyword : String} {cs text : List Char}
    (h : GuardHeader keyword cs text) : guardText? keyword cs = some text := by
  obtain @⟨word, gap, rest, hword, hgap, hblank, hrest, hfeed⟩ := h
  obtain ⟨more, behind, rfl, hmore, hbehind⟩ := exists_split rest
  -- the blanks in front of the text belong to the gap
  have hblanks : ∀ c ∈ gap ++ more, isBlank c = true := List.forall_mem_append.mpr ⟨hblank, hmore⟩
  rw [← List.append_assoc gap, guardText?_of_split hword hblanks hbehind, if_neg (by simp [hgap])]
  by_cases hempty : behind = []
  · subst hempty
    rw [List.append_nil] at hrest hfeed ⊢
    have hlength : 2 ≤ (gap ++ more).length := by
      have hpositive := List.length_pos_iff.mpr hgap
      have hpositive' := List.length_pos_iff.mpr hrest
      rw [List.length_append]
      omega
    have hlast : (gap ++ more).getLast? ≠ some '\n' := by
      rw [List.getLast?_append_of_ne_nil _ hrest]
      exact fun hlast => hfeed (List.mem_of_getLast? hlast)
    rw [if_pos rfl, if_pos ⟨hlength, hlast⟩, trim_eq_nil hmore]
  · rw [if_neg hempty, if_neg (fun h => hfeed (List.mem_append_right _ h)), trim,
      ← trimStart_append_of_blank hmore, trim]

theorem guardText?_eq_some_iff {keyword : String} {cs text : List Char} :
    guardText? keyword cs = some text ↔ GuardHeader keyword cs text :=
  ⟨guardHeader_of_guardText?, guardText?_of_guardHeader⟩

/-! ## Loops -/

/-- The word `for` and a blank. -/
def LoopHeader (cs : List Char) : Prop :=
  ∃ word c rest, cs = word ++ c :: rest ∧ sameWord "for" word = true ∧ isBlank c = true

theorem isLoopHeader_eq_true_iff {cs : List Char} : isLoopHeader cs = true ↔ LoopHeader cs := by
  constructor
  · intro h
    cases hafter : afterWord? "for" cs with
    | none => simp [isLoopHeader, hafter] at h
    | some behind =>
        have hstarts : startsBlank behind = true := by simpa [isLoopHeader, hafter] using h
        obtain ⟨word, rfl, hword⟩ := afterWord?_eq_some_iff.mp hafter
        obtain ⟨c, rest, rfl, hblank⟩ := startsBlank_eq_true_iff.mp hstarts
        exact ⟨word, c, rest, rfl, hword, hblank⟩
  · rintro ⟨word, c, rest, rfl, hword, hblank⟩
    have hafter : afterWord? "for" (word ++ c :: rest) = some (c :: rest) :=
      afterWord?_eq_some_iff.mpr ⟨word, rfl, hword⟩
    simp [isLoopHeader, hafter, startsBlank, hblank]

/-! ## Functions -/

/-- The word `func`, as written, and a blank. -/
def FunctionHeader (cs : List Char) : Prop :=
  ∃ c rest, cs = "func".toList ++ c :: rest ∧ isBlank c = true

theorem isFunctionHeader_eq_true_iff {cs : List Char} :
    isFunctionHeader cs = true ↔ FunctionHeader cs := by
  constructor
  · intro h
    cases hafter : after? "func" cs with
    | none => simp [isFunctionHeader, hafter] at h
    | some behind =>
        have hstarts : startsBlank behind = true := by simpa [isFunctionHeader, hafter] using h
        obtain ⟨c, rest, rfl, hblank⟩ := startsBlank_eq_true_iff.mp hstarts
        exact ⟨c, rest, after?_eq_some_iff.mp hafter, hblank⟩
  · rintro ⟨c, rest, hcs, hblank⟩
    simp [isFunctionHeader, after?_eq_some_iff.mpr hcs, startsBlank, hblank]

/-- The word `func`, a name and parentheses, with blanks between them. -/
inductive FunctionShape : List Char → List Char → Prop
  | intro {gap name before inside : List Char} : gap ≠ [] → (∀ c ∈ gap, isBlank c = true) →
      isName name = true → (∀ c ∈ before, isBlank c = true) →
      (∀ c ∈ inside, isBlank c = true) →
      FunctionShape ("func".toList ++ (gap ++ (name ++ (before ++ '(' :: (inside ++ [')']))))) name

theorem FunctionShape.functionHeader {cs name : List Char} (h : FunctionShape cs name) :
    FunctionHeader cs := by
  cases h with
  | @intro gap name before inside hgap hblank =>
      cases gap with
      | nil => exact absurd rfl hgap
      | cons c gap => exact ⟨c, _, rfl, hblank c (List.mem_cons_self ..)⟩

theorem isNameChar_of_isName {name : List Char} (h : isName name = true) :
    ∀ c ∈ name, isNameChar c = true := by
  cases name with
  | nil => simp
  | cons c cs =>
      simp only [isName, Bool.and_eq_true, List.all_eq_true] at h
      exact List.forall_mem_cons.mpr ⟨isNameChar_of_isNameStart h.1, h.2⟩

/-- A name ends where blanks or a parenthesis follow. -/
theorem span_name {name before : List Char} (hname : ∀ c ∈ name, isNameChar c = true)
    (hbefore : ∀ c ∈ before, isBlank c = true) (rest : List Char) :
    (name ++ (before ++ '(' :: rest)).takeWhile isNameChar = name ∧
      (name ++ (before ++ '(' :: rest)).dropWhile isNameChar = before ++ '(' :: rest := by
  -- what follows the name is a blank or the parenthesis, and neither is part of a name
  have hstop : ∃ d behind, before ++ '(' :: rest = d :: behind ∧ isNameChar d = false := by
    cases before with
    | nil => exact ⟨'(', rest, rfl, by decide⟩
    | cons d before =>
        refine ⟨d, _, rfl, Bool.eq_false_iff.mpr fun hd => ?_⟩
        have hblank := hbefore d (List.mem_cons_self ..)
        rw [isBlank_eq_false_of_isNameChar hd] at hblank
        cases hblank
  obtain ⟨d, behind, heq, hd⟩ := hstop
  rw [heq, List.takeWhile_append_of_pos hname, List.dropWhile_append_of_pos hname]
  simp [hd]

theorem functionName?_split_iff {gap behind name : List Char} (hgap : gap ≠ [])
    (hblank : ∀ c ∈ gap, isBlank c = true) (hbehind : trimStart behind = behind) :
    functionName? ("func".toList ++ (gap ++ behind)) = some name ↔
      isName name = true ∧ name = behind.takeWhile isNameChar ∧
        ∃ inner, trimStart (behind.dropWhile isNameChar) = '(' :: inner ∧
          trimStart inner = [')'] := by
  have hstarts : startsBlank (gap ++ behind) = true := by
    cases gap with
    | nil => exact absurd rfl hgap
    | cons c gap => exact hblank c (List.mem_cons_self ..)
  have htrimmed : trimStart (gap ++ behind) = behind :=
    (trimStart_append_of_blank hblank).trans hbehind
  rw [functionName?, after?_eq_some_iff.mpr rfl]
  simp only [Option.bind_eq_bind, Option.bind_some, hstarts, htrimmed, Bool.not_true,
    Bool.false_eq_true, if_false]
  constructor
  · intro h
    split at h
    · cases h
    · next hname =>
      split at h
      · next inner hopen =>
        split at h
        · next hclose =>
          cases h
          exact ⟨by simpa using hname, rfl, inner, hopen, hclose⟩
        · cases h
      · cases h
  · rintro ⟨hname, rfl, inner, hopen, hclose⟩
    simp [hname, hopen, hclose]

theorem functionShape_of_functionName? {cs name : List Char} (h : functionName? cs = some name) :
    FunctionShape cs name := by
  obtain ⟨rest, hafter, hrest⟩ := Option.bind_eq_some_iff.mp h
  obtain rfl := after?_eq_some_iff.mp hafter
  obtain ⟨gap, behind, rfl, hblank, hbehind⟩ := exists_split rest
  have hgap : gap ≠ [] := by
    rintro rfl
    have hstarts : startsBlank behind = true := by
      by_contra hnot
      simp [hnot] at hrest
    obtain ⟨c, rest, rfl, hc⟩ := startsBlank_eq_true_iff.mp hstarts
    exact List.dropWhile_eq_self_iff.mp hbehind (by simp) hc
  obtain ⟨hname, hrun, inner, hopen, hclose⟩ := (functionName?_split_iff hgap hblank hbehind).mp h
  -- what stands before the parentheses and between them is blank
  obtain ⟨before, parens, hsplit, hbefore, hparens⟩ := exists_split (behind.dropWhile isNameChar)
  obtain ⟨inside, closing, rfl, hinside, hclosing⟩ := exists_split inner
  rw [trimStart_append_of_blank hinside, hclosing] at hclose
  rw [hsplit, trimStart_append_of_blank hbefore, hparens] at hopen
  subst hopen hclose
  have hbehind' : behind = name ++ (before ++ '(' :: (inside ++ [')'])) := by
    rw [hrun, ← hsplit, List.takeWhile_append_dropWhile]
  rw [hbehind']
  exact .intro hgap hblank hname hbefore hinside

theorem functionName?_of_functionShape {cs name : List Char} (h : FunctionShape cs name) :
    functionName? cs = some name := by
  cases h with
  | @intro gap name before inside hgap hblank hname hbefore hinside =>
      have hletters := isNameChar_of_isName hname
      -- a name starts with no blank, so nothing of it is trimmed
      have htrimmed : ∀ rest, trimStart (name ++ rest) = name ++ rest := by
        intro rest
        cases name with
        | nil => cases hname
        | cons c name =>
            refine trimStart_cons_of_not_blank _ ?_
            exact isBlank_eq_false_of_isNameChar (hletters c (List.mem_cons_self ..))
      have hparens : trimStart (before ++ '(' :: (inside ++ [')'])) = '(' :: (inside ++ [')']) := by
        rw [trimStart_append_of_blank hbefore]
        exact trimStart_cons_of_not_blank _ (by decide)
      have hclose : trimStart (inside ++ [')']) = [')'] := by
        rw [trimStart_append_of_blank hinside]
        exact trimStart_cons_of_not_blank _ (by decide)
      obtain ⟨htake, hdrop⟩ := span_name hletters hbefore (inside ++ [')'])
      refine (functionName?_split_iff hgap hblank (htrimmed _)).mpr ⟨hname, htake.symm, ?_⟩
      exact ⟨_, hdrop.symm ▸ hparens, hclose⟩

theorem functionName?_eq_some_iff {cs name : List Char} :
    functionName? cs = some name ↔ FunctionShape cs name :=
  ⟨functionShape_of_functionName?, functionName?_of_functionShape⟩

/-! ## Calls -/

/-- A name and parentheses when the blanks are left out. -/
def CallShape (cs name : List Char) : Prop :=
  name ≠ [] ∧ (∀ c ∈ name, isNameChar c = true) ∧
    (cs.filter fun c => !isBlank c) = name ++ ['(', ')']

theorem callName?_eq_some_iff {cs name : List Char} :
    callName? cs = some name ↔ CallShape cs name := by
  unfold callName? CallShape
  dsimp only
  generalize (cs.filter fun c => !isBlank c) = compact
  -- the letters in front and what follows them make up the text
  have hsplit : compact.takeWhile isNameChar ++ compact.dropWhile isNameChar = compact :=
    List.takeWhile_append_dropWhile
  constructor
  · intro h
    split at h
    · next hshape =>
      cases h
      simp only [Bool.and_eq_true, Bool.not_eq_true', List.isEmpty_eq_false_iff, beq_iff_eq]
        at hshape
      rw [hshape.2] at hsplit
      exact ⟨hshape.1, fun c => List.mem_takeWhile_imp, hsplit.symm⟩
    · cases h
  · rintro ⟨hne, hname, rfl⟩
    obtain ⟨htake, hdrop⟩ := span_name hname (List.forall_mem_nil (isBlank · = true)) [')']
    rw [List.nil_append] at htake hdrop
    simp [htake, hdrop, hne]

/-- A text that has the form of a call and is no other header. -/
structure CallHeader (cs name : List Char) : Prop where
  noIf : ∀ text, ¬ GuardHeader "if" cs text
  noWhile : ∀ text, ¬ GuardHeader "while" cs text
  noLoop : ¬ LoopHeader cs
  noFunction : ¬ FunctionHeader cs
  shape : CallShape cs name

/-! ## No header is of two kinds -/

theorem GuardHeader.isSome_afterWord? {keyword : String} {cs text : List Char}
    (h : GuardHeader keyword cs text) : (afterWord? keyword cs).isSome = true := by
  cases h with
  | @intro word gap rest hword =>
      rw [afterWord?_eq_some_iff.mpr ⟨word, rfl, hword⟩]
      rfl

theorem LoopHeader.isSome_afterWord? {cs : List Char} (h : LoopHeader cs) :
    (afterWord? "for" cs).isSome = true := by
  obtain ⟨word, c, rest, rfl, hword, _⟩ := h
  rw [afterWord?_eq_some_iff.mpr ⟨word, rfl, hword⟩]
  rfl

/-- The keywords of guards and loops start with different letters. -/
theorem keyword_unique {v w : String} {cs : List Char} (hv : v ∈ ["if", "while", "for"])
    (hw : w ∈ ["if", "while", "for"]) (h : (afterWord? v cs).isSome = true)
    (h' : (afterWord? w cs).isSome = true) : v = w := by
  have hletters : ∀ u ∈ ["if", "while", "for"], u.toList ≠ [] := by decide
  have hunique : ∀ v ∈ ["if", "while", "for"], ∀ w ∈ ["if", "while", "for"],
      v.toList.head? = w.toList.head? → v = w := by
    decide
  obtain ⟨rest, hrest⟩ := Option.isSome_iff_exists.mp h
  obtain ⟨rest', hrest'⟩ := Option.isSome_iff_exists.mp h'
  refine hunique v hv w hw ?_
  rw [← head?_of_afterWord? (hletters v hv) hrest, ← head?_of_afterWord? (hletters w hw) hrest']

/-- A function header starts with none of these keywords. -/
theorem FunctionHeader.afterWord?_eq_none {cs : List Char} (h : FunctionHeader cs) :
    ∀ w ∈ ["if", "while", "for"], afterWord? w cs = none := by
  obtain ⟨c, rest, rfl, _⟩ := h
  have hlengths : "if".length = 2 ∧ "while".length = 5 ∧ "for".length = 3 := by decide
  simp [afterWord?, sameWord, hlengths]

theorem isFunctionHeader_eq_false {w : String} {cs : List Char} (hw : w ∈ ["if", "while", "for"])
    (h : (afterWord? w cs).isSome = true) : isFunctionHeader cs = false := by
  rw [Bool.eq_false_iff]
  intro hfunction
  rw [(isFunctionHeader_eq_true_iff.mp hfunction).afterWord?_eq_none w hw] at h
  cases h

/-- The header of a call, by the functions that recognise headers. -/
theorem callHeader_iff {cs name : List Char} :
    CallHeader cs name ↔ guardText? "if" cs = none ∧ guardText? "while" cs = none ∧
      isLoopHeader cs = false ∧ isFunctionHeader cs = false ∧ callName? cs = some name := by
  have hguard : ∀ keyword, guardText? keyword cs = none ↔ ∀ text, ¬ GuardHeader keyword cs text := by
    intro keyword
    rw [Option.eq_none_iff_forall_ne_some]
    exact forall_congr' fun text => not_congr guardText?_eq_some_iff
  rw [hguard, hguard, Bool.eq_false_iff, Bool.eq_false_iff, Ne, Ne, isLoopHeader_eq_true_iff,
    isFunctionHeader_eq_true_iff, callName?_eq_some_iff]
  exact ⟨fun h => ⟨h.noIf, h.noWhile, h.noLoop, h.noFunction, h.shape⟩,
    fun ⟨hif, hwhile, hloop, hfunction, hshape⟩ => ⟨hif, hwhile, hloop, hfunction, hshape⟩⟩

end GemGrid.Script
