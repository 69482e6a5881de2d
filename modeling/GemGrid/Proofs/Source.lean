import GemGrid.Proofs.Text
import GemGrid.Source
import Mathlib.Data.String.Basic

/-!
# The lines of a text

The lines of a source are numbered from one, without gaps, and joined by line feeds they are the
source again.  A text differs from its source only in how its line breaks are written, and in byte
order marks.

* `Spelling` says how a line break may be written: as LF, CR or CRLF.  As CRLF is one break, no break
  that is written as CR stands in front of one that is written as LF.  With this rule every text
  spells one thing only, and `unifyBreaks` is what it spells (`spelling_iff`).
* `unifyBreaks_eq_replace`: the same comes out if first all CRLF and then all CR are replaced by LF.
  What the first replacement writes never makes a new CRLF for a CR in front of it.
* `Source.slice?` cuts a line out of the source by byte offsets.  Lines start behind line feeds, and
  what stands behind some lines starts at the byte offset where they end (`exists_starts_behind`),
  whatever the widths of their characters are.

`reconstructs_ofString` puts this together.
-/

namespace GemGrid

open Text

/-! ## Replacing -/

namespace Text

/-- Replaces `old` by `new` from left to right.  The first `skip` characters belong to a place that
has been replaced already. -/
def replaceFrom (old new : List Char) : (skip : Nat) → List Char → List Char
  | _, [] => []
  | skip + 1, _ :: cs => replaceFrom old new skip cs
  | 0, c :: cs =>
    if old.isPrefixOf (c :: cs) then new ++ replaceFrom old new (old.length - 1) cs
    else c :: replaceFrom old new 0 cs

/-- Replaces `old` by `new` wherever it stands in a text. -/
def replace (old new cs : List Char) : List Char :=
  replaceFrom old new 0 cs

theorem replace_cons_of_isPrefixOf {old cs : List Char} {c : Char} (new : List Char)
    (h : old.isPrefixOf (c :: cs) = true) :
    replace old new (c :: cs) = new ++ replaceFrom old new (old.length - 1) cs := by
  rw [replace, replaceFrom, if_pos h]

theorem replace_cons_of_not_isPrefixOf {old cs : List Char} {c : Char} (new : List Char)
    (h : ¬ old.isPrefixOf (c :: cs) = true) :
    replace old new (c :: cs) = c :: replace old new cs := by
  rw [replace, replaceFrom, if_neg h, replace]

/-- A single character is replaced on its own. -/
theorem replace_singleton (b : Char) (new cs : List Char) :
    replace [b] new cs = cs.flatMap fun c => if c = b then new else [c] := by
  induction cs with
  | nil => rfl
  | cons c cs ih =>
      rw [List.flatMap_cons, ← ih]
      by_cases hc : c = b
      · rw [if_pos hc, replace_cons_of_isPrefixOf new (by simp [hc])]
        rfl
      · have hb : b ≠ c := fun heq => hc heq.symm
        rw [if_neg hc, replace_cons_of_not_isPrefixOf new (by simp [hb]), List.singleton_append]

/-- A single character is removed wherever it stands. -/
theorem replace_singleton_nil (b : Char) (cs : List Char) :
    replace [b] [] cs = cs.filter (· != b) := by
  rw [replace_singleton]
  induction cs with
  | nil => rfl
  | cons c cs ih =>
      rw [List.flatMap_cons, ih]
      by_cases hc : c = b
      · rw [if_pos hc, List.filter_cons_of_neg (by simp [hc]), List.nil_append]
      · rw [if_neg hc, List.filter_cons_of_pos (by simp [hc]), List.singleton_append]

end Text

namespace Source

/-! ## Line breaks -/

/-- The ways to write a line break. -/
inductive LineBreak where
  | lf
  | cr
  | crlf
deriving DecidableEq, Repr

/-- The characters of a line break. -/
def LineBreak.chars : LineBreak → List Char
  | .lf => ['\n']
  | .cr => ['\r']
  | .crlf => ['\r', '\n']

/-- A text `cs` that is `us` with every line break written in some way.  No break that is written as
CR stands in front of one that is written as LF. -/
inductive Spelling : (us cs : List Char) → Prop
  | nil : Spelling [] []
  | char {c : Char} {us cs : List Char} : c ≠ '\r' → c ≠ '\n' → Spelling us cs →
      Spelling (c :: us) (c :: cs)
  | lineBreak (b : LineBreak) {us cs : List Char} : (b = .cr → cs.head? ≠ some '\n') →
      Spelling us cs → Spelling ('\n' :: us) (b.chars ++ cs)

/-- Two texts differ only in how their line breaks are written. -/
def Respelled (cs ds : List Char) : Prop :=
  ∃ us, Spelling us cs ∧ Spelling us ds

theorem unifyBreaks_cons {c : Char} (hc : c ≠ '\r') (cs : List Char) :
    unifyBreaks (c :: cs) = c :: unifyBreaks cs := by
  rw [unifyBreaks]
  · exact fun _ heq => absurd heq hc
  · exact fun heq => absurd heq hc

theorem unifyBreaks_cr {cs : List Char} (h : cs.head? ≠ some '\n') :
    unifyBreaks ('\r' :: cs) = '\n' :: unifyBreaks cs := by
  rw [unifyBreaks]
  rintro rest rfl
  exact h rfl

/-- Every text spells one thing, with a line feed for each of its breaks. -/
theorem spelling_iff {us cs : List Char} : Spelling us cs ↔ us = unifyBreaks cs := by
  constructor
  · intro h
    induction h with
    | nil => rfl
    | char hreturn _ _ ih => rw [unifyBreaks_cons hreturn, ih]
    | lineBreak b hfeed _ ih =>
        subst ih
        cases b with
        | lf => exact (unifyBreaks_cons (by decide) _).symm
        | cr => exact (unifyBreaks_cr (hfeed rfl)).symm
        | crlf => rfl
  · rintro rfl
    fun_induction unifyBreaks cs with
    | case1 => exact .nil
    | case2 cs ih => exact .lineBreak .crlf (by simp) ih
    -- a return that is no pair: what follows it starts with no feed
    | case3 cs hfeed ih =>
        refine .lineBreak .cr (fun _ hhead => ?_) ih
        obtain ⟨rest, rfl⟩ := List.head?_eq_some_iff.mp hhead
        exact hfeed rest rfl
    | case4 c cs _ hreturn ih =>
        by_cases hc : c = '\n'
        · subst hc
          exact .lineBreak .lf (by simp) ih
        · exact .char hreturn hc ih

/-- What a text spells holds line feeds, and the characters of the text that are no CR. -/
theorem Spelling.mem_of_mem {us cs : List Char} (h : Spelling us cs) :
    ∀ c ∈ us, c = '\n' ∨ (c ≠ '\r' ∧ c ∈ cs) := by
  induction h with
  | nil => simp
  | char hreturn _ _ ih =>
      rw [List.forall_mem_cons]
      refine ⟨.inr ⟨hreturn, List.mem_cons_self⟩, fun d hd => (ih d hd).imp_right ?_⟩
      exact fun hold => ⟨hold.1, List.mem_cons_of_mem _ hold.2⟩
  | lineBreak b _ _ ih =>
      rw [List.forall_mem_cons]
      refine ⟨.inl rfl, fun d hd => (ih d hd).imp_right ?_⟩
      exact fun hold => ⟨hold.1, List.mem_append_right _ hold.2⟩

theorem respelled_iff {cs ds : List Char} : Respelled cs ds ↔ unifyBreaks cs = unifyBreaks ds := by
  constructor
  · rintro ⟨us, hcs, hds⟩
    rw [← spelling_iff.mp hcs, ← spelling_iff.mp hds]
  · intro h
    exact ⟨unifyBreaks cs, spelling_iff.mpr rfl, spelling_iff.mpr h⟩

/-- Line feeds are left alone. -/
theorem unifyBreaks_eq_self {cs : List Char} (h : '\r' ∉ cs) : unifyBreaks cs = cs := by
  fun_induction unifyBreaks cs with
  | case1 => rfl
  | case2 cs ih => exact absurd (List.mem_cons_self ..) h
  | case3 cs _ ih => exact absurd (List.mem_cons_self ..) h
  | case4 c cs _ _ ih => rw [ih (List.not_mem_of_not_mem_cons h)]

/-- The breaks can be unified by two replacements. -/
theorem unifyBreaks_eq_replace (cs : List Char) :
    unifyBreaks cs = replace ['\r'] ['\n'] (replace ['\r', '\n'] ['\n'] cs) := by
  rw [replace_singleton]
  fun_induction unifyBreaks cs with
  | case1 => rfl
  | case2 cs ih =>
      rw [replace_cons_of_isPrefixOf _ (by simp), ih]
      rfl
  | case3 cs hfeed ih =>
      -- the pair is replaced first, so a return left over has no feed behind it
      have hpair : ¬ ['\r', '\n'].isPrefixOf ('\r' :: cs) = true := by
        rw [List.isPrefixOf_iff_prefix, List.cons_prefix_cons]
        rintro ⟨-, rest, rfl⟩
        exact hfeed rest rfl
      rw [replace_cons_of_not_isPrefixOf _ hpair, List.flatMap_cons, ih]
      rfl
  | case4 c cs _ hreturn ih =>
      have hpair : ¬ ['\r', '\n'].isPrefixOf (c :: cs) = true := by
        rw [List.isPrefixOf_iff_prefix, List.cons_prefix_cons]
        exact fun hstart => hreturn hstart.1.symm
      rw [replace_cons_of_not_isPrefixOf _ hpair, List.flatMap_cons, if_neg hreturn, ih]
      rfl

/-! ## Sources of texts -/

theorem return_not_mem (text : String) : '\r' ∉ (ofString text).chars := by
  intro hmem
  have hspelled : Spelling (unifyBreaks text.toList) text.toList := spelling_iff.mpr rfl
  rcases hspelled.mem_of_mem '\r' (List.mem_of_mem_filter hmem) with hfeed | ⟨hreturn, -⟩
  · exact absurd hfeed (by decide)
  · exact hreturn rfl

theorem mark_not_mem (text : String) : '\uFEFF' ∉ (ofString text).chars := by
  intro hmem
  have hkept := List.of_mem_filter hmem
  simp at hkept

/-- In a text without marks only the line breaks are changed. -/
theorem chars_ofString_of_not_mem {text : String} (h : '\uFEFF' ∉ text.toList) :
    (ofString text).chars = unifyBreaks text.toList := by
  have hspelled : Spelling (unifyBreaks text.toList) text.toList := spelling_iff.mpr rfl
  rw [ofString, List.filter_eq_self]
  intro c hc
  apply bne_iff_ne.mpr
  rintro rfl
  rcases hspelled.mem_of_mem '\uFEFF' hc with hfeed | ⟨-, hmem⟩
  · exact absurd hfeed (by decide)
  · exact h hmem

/-- A text that holds nothing to be changed is its own source. -/
theorem chars_ofString_eq_self {cs : List Char} (hreturn : '\r' ∉ cs) (hmark : '\uFEFF' ∉ cs) :
    (ofString (String.ofList cs)).chars = cs := by
  rw [chars_ofString_of_not_mem (by rwa [String.toList_ofList]), String.toList_ofList,
    unifyBreaks_eq_self hreturn]

/-! ## Numbered lines -/

section Lines

variable {s : Source} {n : Nat} {line : List Char}

theorem mem_numbered : (n, line) ∈ s.numbered ↔ s.line? n = some line := by
  have hzip : (n, line) ∈ s.numbered ↔ (line, n) ∈ s.lines.zipIdx 1 := by
    simp only [numbered, List.mem_map, Prod.mk.injEq, Prod.exists]
    constructor
    · rintro ⟨_, _, hmem, rfl, rfl⟩
      exact hmem
    · exact fun hmem => ⟨line, n, hmem, rfl, rfl⟩
  rw [hzip, List.mk_mem_zipIdx_iff_le_and_getElem?_sub]
  cases n with
  | zero => simp [line?]
  | succ n => simp [line?]

/-- The numbers of lines go from one to the number of lines. -/
theorem exists_line?_iff : (∃ line, s.line? n = some line) ↔ 1 ≤ n ∧ n ≤ s.lineCount := by
  cases n with
  | zero => simp [line?]
  | succ n =>
      rw [line?, ← Option.isSome_iff_exists, isSome_getElem?, lineCount]
      exact ⟨fun hlt => ⟨Nat.succ_pos n, hlt⟩, fun hle => hle.2⟩

theorem mem_lines_of_line? (h : s.line? n = some line) : line ∈ s.lines := by
  cases n with
  | zero => cases h
  | succ n => exact List.mem_of_getElem? h

/-- No line holds the feed that ends it. -/
theorem feed_not_mem (h : line ∈ s.lines) : '\n' ∉ line := by
  intro hmem
  have hfeed := not_isBreak_of_mem_pieces _ _ line h '\n' hmem
  simp at hfeed

theorem map_fst_numbered (s : Source) : s.numbered.map Prod.fst = List.range' 1 s.lineCount := by
  rw [numbered, List.map_map, lineCount, ← List.zipIdx_map_snd 1 s.lines]
  rfl

theorem map_snd_numbered (s : Source) : s.numbered.map Prod.snd = s.lines := by
  rw [numbered, List.map_map]
  exact List.zipIdx_map_fst 1 s.lines

/-- The lines with their numbers can be looked up one by one. -/
theorem numbered_eq_filterMap (s : Source) :
    s.numbered = (List.range' 1 s.lineCount).filterMap fun n => (s.line? n).map (n, ·) := by
  have hlookup : ∀ p ∈ s.numbered, (s.line? p.1).map (p.1, ·) = some p := by
    intro p hp
    rw [mem_numbered.mp hp, Option.map_some]
  calc s.numbered
      = s.numbered.filterMap some := List.filterMap_some.symm
    _ = s.numbered.filterMap fun p => (s.line? p.1).map (p.1, ·) :=
        List.filterMap_congr fun p hp => (hlookup p hp).symm
    _ = (s.numbered.map Prod.fst).filterMap fun n => (s.line? n).map (n, ·) := by
        rw [List.filterMap_map]
        rfl
    _ = _ := by rw [map_fst_numbered]

theorem filterMap_line? (s : Source) : (List.range' 1 s.lineCount).filterMap s.line? = s.lines := by
  rw [← map_snd_numbered, numbered_eq_filterMap, List.map_filterMap]
  congr 1
  funext n
  rw [Option.map_map]
  exact (Option.map_id_apply ..).symm

end Lines

/-! ## Byte offsets -/

/-- The byte offsets behind the line feeds of a text that stands at an offset. -/
def startsFrom (offset : Nat) : List Char → List Nat
  | [] => []
  | c :: cs =>
    let next := offset + c.utf8Size
    if c = '\n' then next :: startsFrom next cs else startsFrom next cs

/-- The byte offsets at which the lines of a source start: its own start, and behind every line
feed. -/
def starts (s : Source) : List Nat :=
  0 :: startsFrom 0 s.chars

/-- The byte offset one before the start with an index, or that of the end of the source. -/
def stopBefore (s : Source) (i : Nat) : Nat :=
  s.starts[i]?.elim (String.ofList s.chars).utf8ByteSize (· - 1)

/-- The text from the start of a line to one byte before the start of the next line. -/
def slice? (s : Source) : Nat → Option String
  | 0 => none
  | n + 1 => s.starts[n]?.map fun start =>
    String.Pos.Raw.extract (String.ofList s.chars) ⟨start⟩ ⟨s.stopBefore (n + 1)⟩

/-- Lines with a feed behind each of them. -/
def fed (lines : List (List Char)) : List Char :=
  lines.flatMap (· ++ ['\n'])

/-- Nothing starts inside a line. -/
theorem startsFrom_append_of_not_mem {line : List Char} (h : '\n' ∉ line) (offset : Nat)
    (rest : List Char) :
    startsFrom offset (line ++ rest) = startsFrom (offset + String.utf8Len line) rest := by
  induction line generalizing offset with
  | nil => rfl
  | cons c line ih =>
      have hc : c ≠ '\n' := (List.ne_of_not_mem_cons h).symm
      rw [List.cons_append, startsFrom, if_neg hc, ih (List.not_mem_of_not_mem_cons h),
        String.utf8Len_cons, Nat.add_assoc, Nat.add_comm c.utf8Size]

/-- What stands behind some lines starts at the byte offset where they end, and as many lines start
before it. -/
theorem exists_starts_behind {before : List (List Char)} (h : ∀ line ∈ before, '\n' ∉ line)
    (offset : Nat) (rest : List Char) :
    ∃ front, front.length = before.length ∧
      offset :: startsFrom offset (fed before ++ rest) =
        front ++ (offset + String.utf8Len (fed before)) ::
          startsFrom (offset + String.utf8Len (fed before)) rest := by
  induction before generalizing offset with
  | nil => exact ⟨[], rfl, rfl⟩
  | cons line before ih =>
      obtain ⟨hline, hbefore⟩ := List.forall_mem_cons.mp h
      have hsize : '\n'.utf8Size = 1 := rfl
      have hfed : fed (line :: before) = line ++ '\n' :: fed before := by
        rw [fed, List.flatMap_cons, List.append_assoc]
        rfl
      -- the break takes one byte, so the first line behind it starts one further
      have hlength : offset + String.utf8Len (fed (line :: before)) =
          offset + String.utf8Len line + 1 + String.utf8Len (fed before) := by
        rw [hfed, String.utf8Len_append, String.utf8Len_cons, hsize]
        omega
      obtain ⟨front, hfront, hstarts⟩ := ih hbefore (offset + String.utf8Len line + 1)
      refine ⟨offset :: front, by rw [List.length_cons, hfront, List.length_cons], ?_⟩
      rw [hlength, List.cons_append, ← hstarts, hfed, List.append_assoc, List.cons_append,
        startsFrom_append_of_not_mem hline, startsFrom, if_pos rfl, hsize]

/-- A source around one of its lines. -/
theorem chars_of_lines {s : Source} {before behind : List (List Char)} {line : List Char}
    (h : s.lines = before ++ line :: behind) :
    s.chars = fed before ++ (line ++ behind.flatMap ('\n' :: ·)) := by
  rw [← s.intercalate_lines, h, fed]
  clear h
  induction before with
  | cons first before ih =>
      rw [List.cons_append, List.intercalate_cons_of_ne_nil (by simp), ih, List.flatMap_cons,
        List.append_assoc, List.append_assoc, List.append_assoc]
  | nil =>
      rw [List.nil_append, List.flatMap_nil, List.nil_append]
      induction behind generalizing line with
      | nil => simp
      | cons next behind ih =>
          rw [List.intercalate_cons_cons, ih, List.flatMap_cons, List.append_assoc]
          rfl

/-- The starts of the lines around a line. -/
theorem exists_starts {s : Source} {before behind : List (List Char)} {line : List Char}
    (h : s.lines = before ++ line :: behind) :
    ∃ front, front.length = before.length ∧
      s.starts = front ++ String.utf8Len (fed before) ::
        startsFrom (String.utf8Len (fed before) + String.utf8Len line)
          (behind.flatMap ('\n' :: ·)) := by
  have hfeed : ∀ l ∈ before ++ line :: behind, '\n' ∉ l := by
    rw [← h]
    exact fun _ => feed_not_mem
  -- no line holds a feed, so the only starts in front are those of the lines before
  have hbefore : ∀ l ∈ before, '\n' ∉ l := fun l hl => hfeed l (List.mem_append_left _ hl)
  have hline : '\n' ∉ line := hfeed line (by simp)
  obtain ⟨front, hfront, hstarts⟩ :=
    exists_starts_behind hbefore 0 (line ++ behind.flatMap ('\n' :: ·))
  refine ⟨front, hfront, ?_⟩
  rw [starts, chars_of_lines h, hstarts, Nat.zero_add, startsFrom_append_of_not_mem hline]

/-- The table has one entry for each line. -/
theorem length_starts (s : Source) : s.starts.length = s.lineCount := by
  obtain ⟨before, last, hlines⟩ : ∃ before last, s.lines = before ++ [last] :=
    (List.eq_nil_or_concat' s.lines).resolve_left (pieces_ne_nil _ _)
  obtain ⟨front, hfront, hstarts⟩ := exists_starts hlines
  rw [hstarts, lineCount, hlines, List.length_append, List.length_append, hfront]
  rfl

/-- A line lies between its start and the byte before the next one. -/
theorem slice?_of_lines {s : Source} {before behind : List (List Char)} {line : List Char}
    (h : s.lines = before ++ line :: behind) :
    s.slice? (before.length + 1) = some (String.ofList line) := by
  obtain ⟨front, hfront, hstarts⟩ := exists_starts h
  have hchars := chars_of_lines h
  have hstart : s.starts[before.length]? = some (String.utf8Len (fed before)) := by
    rw [hstarts, List.getElem?_append_right (by omega), hfront, Nat.sub_self]
    rfl
  have hstop : s.stopBefore (before.length + 1) =
      String.utf8Len (fed before) + String.utf8Len line := by
    rw [stopBefore, hstarts, List.getElem?_append_right (by omega), hfront, Nat.add_sub_cancel_left]
    -- the last line reaches to the end of the text, every other one to its feed
    cases behind with
    | nil =>
        show (String.ofList s.chars).utf8ByteSize = _
        rw [hchars, String.utf8ByteSize_ofList, String.utf8Len_append, List.flatMap_nil,
          List.append_nil]
    | cons next behind => rfl
  rw [slice?, hstart, Option.map_some, hstop, hchars, ← List.append_assoc]
  exact congrArg some (String.extract_of_valid _ _ _)

/-- The lines are cut out of the source by byte offsets. -/
theorem slice?_eq (s : Source) (n : Nat) : s.slice? n = (s.line? n).map String.ofList := by
  cases n with
  | zero => rfl
  | succ n =>
      rw [line?]
      cases hline : s.lines[n]? with
      | some line =>
          obtain ⟨hn, rfl⟩ := List.getElem?_eq_some_iff.mp hline
          have hsplit : s.lines = s.lines.take n ++ s.lines[n] :: s.lines.drop (n + 1) := by
            rw [← List.drop_eq_getElem_cons hn, List.take_append_drop]
          have hslice := slice?_of_lines hsplit
          rwa [List.length_take_of_le hn.le] at hslice
      | none =>
          -- beyond the last start there is nothing to slice
          have hbeyond : s.starts.length ≤ n := by
            rw [length_starts]
            exact List.getElem?_eq_none_iff.mp hline
          rw [slice?, List.getElem?_eq_none hbeyond]
          rfl

/-! ## The whole text -/

/-- What a source and its lines are to a text. -/
structure Reconstructs (s : Source) (text : String) : Prop where
  /-- First all CRLF, then all CR are replaced by LF, and then the byte order marks are removed. -/
  replaced : s.chars =
    replace ['\uFEFF'] [] (replace ['\r'] ['\n'] (replace ['\r', '\n'] ['\n'] text.toList))
  no_return : '\r' ∉ s.chars
  no_mark : '\uFEFF' ∉ s.chars
  /-- The lines are numbered from one, without gaps. -/
  exists_line_iff : ∀ n, (∃ line, s.line? n = some line) ↔ 1 ≤ n ∧ n ≤ s.lineCount
  no_feed : ∀ n line, s.line? n = some line → '\n' ∉ line
  /-- The lines give the source back. -/
  joined : ['\n'].intercalate ((List.range' 1 s.lineCount).filterMap s.line?) = s.chars
  /-- The list of all lines goes through the numbers. -/
  listed : s.numbered = (List.range' 1 s.lineCount).filterMap fun n => (s.line? n).map (n, ·)
  /-- The lines lie between the byte offsets of the table, which has one entry for each of them. -/
  sliced : s.starts.length = s.lineCount ∧ ∀ n, s.slice? n = (s.line? n).map String.ofList
  /-- The source of the source is itself. -/
  settled : ofString (String.ofList s.chars) = s
  /-- How the line breaks of the text are written does not matter. -/
  respelled : ∀ other : String, Respelled text.toList other.toList → ofString other = s
  /-- Nothing else is forgotten, apart from the marks. -/
  told_apart : ∀ other : String, '\uFEFF' ∉ text.toList → '\uFEFF' ∉ other.toList →
    ofString other = s → Respelled text.toList other.toList

/-- **A text is reconstructed from its lines.**  The source of a text has unified line breaks and no
byte order marks.  Its lines are numbered without gaps, they lie between the byte offsets of the
table, and joined by line feeds they are the source, which is its own source.  Texts have one source
if they differ only in how their line breaks are written, and without marks only then.

Lines are counted in words of 32 bits, which the text must not be too long for. -/
theorem reconstructs_ofString (text : String) : (ofString text).Reconstructs text where
  replaced := by rw [← unifyBreaks_eq_replace, replace_singleton_nil, ofString]
  no_return := return_not_mem text
  no_mark := mark_not_mem text
  exists_line_iff _ := exists_line?_iff
  no_feed _ _ h := feed_not_mem (mem_lines_of_line? h)
  joined := by rw [filterMap_line?, intercalate_lines]
  listed := numbered_eq_filterMap _
  sliced := ⟨length_starts _, slice?_eq _⟩
  settled := by
    rw [Source.mk.injEq]
    exact chars_ofString_eq_self (return_not_mem text) (mark_not_mem text)
  respelled other h := by
    rw [ofString, ofString, respelled_iff.mp h]
  told_apart other htext hother h := by
    rw [respelled_iff, ← chars_ofString_of_not_mem htext, ← chars_ofString_of_not_mem hother, h]

/-- An empty line between a CR and a CRLF, characters of two and three bytes, and a last line with
nothing in it. -/
example : let s := ofString "é\r\r\n→\uFEFFx\n"
    s.numbered = [(1, ['é']), (2, []), (3, ['→', 'x']), (4, [])] ∧ s.starts = [0, 3, 4, 9] := by
  decide

/-- A CR and an LF behind it are one break, unless a mark stands between them. -/
example : ¬ Respelled ['\r', '\n'] ['\n', '\n'] ∧
    (ofString "\r\uFEFF\n").chars = ['\n', '\n'] := by
  rw [respelled_iff]
  decide

end Source

end GemGrid
