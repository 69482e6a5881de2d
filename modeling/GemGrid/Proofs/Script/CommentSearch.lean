import GemGrid.Script.Comment
import Mathlib.Data.List.Infix
import Mathlib.Data.Nat.Find

/-!
# Searching a line for its comments

The comments of a line are found by searching it for signs: a round starts at the cursor, looks for
the first `//`, `/*` or `*/` behind it and goes on where a comment ends.  `scanLine` reads the same
line one character after the other and never looks back.  Both leave the same code
(`stripLine_eq_scanLine`), also where signs overlap as in `/*/` and `//*`, or where comments follow
each other closely as in `/**//`.

* What a search finds is the first place of a sign (`find?_eq_some_iff`), and it finds nothing only
  if the sign stands nowhere (`find?_eq_none_iff`).
* A scan does nothing special up to the first sign: in code it keeps what stands there
  (`scanLine_take`), in a block comment it drops it (`scanLine_drop`).
* So one round of the search does what the scan does up to the same place, and the rounds are put
  together by induction on their bound (`stripFrom_eq`).
-/

namespace GemGrid

/-! ## The first place of a sign -/

namespace Text

variable {sign cs : List Char} {k : Nat}

theorem find?_cons_of_isPrefix {c : Char} (h : sign <+: c :: cs) :
    find? sign (c :: cs) = some 0 := by
  rw [find?, if_pos (List.isPrefixOf_iff_prefix.mpr h)]

theorem find?_cons_of_not_isPrefix {c : Char} (h : ¬ sign <+: c :: cs) :
    find? sign (c :: cs) = (find? sign cs).map (· + 1) := by
  rw [find?, if_neg (mt List.isPrefixOf_iff_prefix.mp h)]

/-- A sign is found at its first place. -/
theorem find?_eq_some_iff (hsign : sign ≠ []) :
    find? sign cs = some k ↔ sign <+: cs.drop k ∧ ∀ j < k, ¬ sign <+: cs.drop j := by
  induction cs generalizing k with
  | nil => simp [find?, hsign]
  | cons c cs ih =>
      by_cases hhere : sign <+: c :: cs
      · rw [find?_cons_of_isPrefix hhere]
        constructor
        · intro h
          cases h
          exact ⟨hhere, fun j hj => absurd hj (Nat.not_lt_zero j)⟩
        · rintro ⟨-, hfirst⟩
          cases k with
          | zero => rfl
          | succ k => exact absurd hhere (hfirst 0 (Nat.zero_lt_succ k))
      · rw [find?_cons_of_not_isPrefix hhere]
        cases k with
        | zero => simp [hhere]
        | succ k =>
            have hshift : (find? sign cs).map (· + 1) = some (k + 1) ↔ find? sign cs = some k := by
              simp
            rw [hshift, ih, List.drop_succ_cons]
            -- the places before are the head and the places of the tail, one further
            refine and_congr_right fun _ => ⟨fun hfirst j hj => ?_, fun hfirst j hj => ?_⟩
            · cases j with
              | zero => exact hhere
              | succ j => exact hfirst j (Nat.lt_of_succ_lt_succ hj)
            · exact hfirst (j + 1) (Nat.succ_lt_succ hj)

/-- A sign is not found only if it has no place. -/
theorem find?_eq_none_iff (hsign : sign ≠ []) :
    find? sign cs = none ↔ ∀ j, ¬ sign <+: cs.drop j := by
  constructor
  · intro h j hj
    have hplace : ∃ j, sign <+: cs.drop j := ⟨j, hj⟩
    -- the least place would be found
    have hfound : find? sign cs = some (Nat.find hplace) :=
      (find?_eq_some_iff hsign).mpr ⟨Nat.find_spec hplace, fun _ hlt => Nat.find_min hplace hlt⟩
    rw [h] at hfound
    cases hfound
  · intro h
    rw [Option.eq_none_iff_forall_ne_some]
    exact fun k hk => h k ((find?_eq_some_iff hsign).mp hk).1

end Text

namespace Script

open Text

theorem pair_prefix_cons_iff {a b c : Char} {cs : List Char} :
    [a, b] <+: c :: cs ↔ c = a ∧ cs.head? = some b := by
  rw [List.cons_prefix_cons]
  refine and_congr eq_comm ?_
  cases cs with
  | nil => simp
  | cons d cs => simp [List.cons_prefix_cons, eq_comm]

/-- A sign of two characters and what stands behind it. -/
theorem drop_eq_of_pair_prefix {a b : Char} {cs : List Char} {k : Nat} (h : [a, b] <+: cs.drop k) :
    cs.drop k = a :: b :: cs.drop (k + 2) := by
  obtain ⟨behind, hbehind⟩ := h
  have hdrop : (cs.drop k).drop 2 = behind := by
    rw [← hbehind]
    rfl
  rw [← List.drop_drop, hdrop, ← hbehind]
  rfl

/-! ## Reading one character after the other -/

/-- The code of a line, and whether a block comment is open after it, read from left to right.  The
first argument says whether one was open before. -/
def scanLine : Bool → List Char → List Char × Bool
  | inBlock, [] => ([], inBlock)
  | true, '*' :: '/' :: cs => scanLine false cs
  | true, _ :: cs => scanLine true cs
  | false, '/' :: '/' :: _ => ([], false)
  | false, '/' :: '*' :: cs => scanLine true cs
  | false, c :: cs =>
    let (code, inBlock) := scanLine false cs
    (c :: code, inBlock)

theorem scanLine_nil (inBlock : Bool) : scanLine inBlock [] = ([], inBlock) := by
  cases inBlock <;> rfl

/-- In code a character is kept where no comment starts. -/
theorem scanLine_keep {c : Char} {cs : List Char} (hline : ¬ ['/', '/'] <+: c :: cs)
    (hblock : ¬ ['/', '*'] <+: c :: cs) :
    scanLine false (c :: cs) = (c :: (scanLine false cs).1, (scanLine false cs).2) := by
  rw [scanLine]
  · rintro rest rfl rfl
    exact hline (pair_prefix_cons_iff.mpr ⟨rfl, rfl⟩)
  · rintro rest rfl rfl
    exact hblock (pair_prefix_cons_iff.mpr ⟨rfl, rfl⟩)

/-- In a block comment a character is dropped where the comment does not end. -/
theorem scanLine_skip {c : Char} {cs : List Char} (h : ¬ ['*', '/'] <+: c :: cs) :
    scanLine true (c :: cs) = scanLine true cs := by
  rw [scanLine]
  rintro rest rfl rfl
  exact h (pair_prefix_cons_iff.mpr ⟨rfl, rfl⟩)

/-- In code everything is kept up to a place before which no comment starts. -/
theorem scanLine_take {cs : List Char} {k : Nat}
    (h : ∀ j < k, ¬ ['/', '/'] <+: cs.drop j ∧ ¬ ['/', '*'] <+: cs.drop j) :
    scanLine false cs =
      (cs.take k ++ (scanLine false (cs.drop k)).1, (scanLine false (cs.drop k)).2) := by
  induction k generalizing cs with
  | zero => rfl
  | succ k ih =>
      cases cs with
      | nil => rfl
      | cons c cs =>
          obtain ⟨hline, hblock⟩ := h 0 (Nat.zero_lt_succ k)
          have hmore := ih fun j hj => h (j + 1) (Nat.succ_lt_succ hj)
          rw [scanLine_keep hline hblock, hmore]
          rfl

/-- In a block comment everything is dropped up to a place before which it does not end. -/
theorem scanLine_drop {cs : List Char} {k : Nat} (h : ∀ j < k, ¬ ['*', '/'] <+: cs.drop j) :
    scanLine true cs = scanLine true (cs.drop k) := by
  induction k generalizing cs with
  | zero => rfl
  | succ k ih =>
      cases cs with
      | nil => rfl
      | cons c cs =>
          rw [scanLine_skip (h 0 (Nat.zero_lt_succ k)), List.drop_succ_cons]
          exact ih fun j hj => h (j + 1) (Nat.succ_lt_succ hj)

/-! ## One round of the search -/

section Rounds

variable {rest : List Char} {start stop : Nat}

/-- A block comment that is found to end ends for the scan as well. -/
theorem scanLine_of_stop (h : find? ['*', '/'] rest = some stop) :
    scanLine true rest = scanLine false (rest.drop (stop + 2)) := by
  obtain ⟨hstop, hfirst⟩ := (find?_eq_some_iff (by simp)).mp h
  rw [scanLine_drop hfirst, drop_eq_of_pair_prefix hstop]
  rfl

theorem scanLine_of_no_stop (h : find? ['*', '/'] rest = none) :
    scanLine true rest = ([], true) := by
  have hnone := (find?_eq_none_iff (by simp)).mp h
  have hscan : scanLine true rest = scanLine true (rest.drop rest.length) :=
    scanLine_drop fun j _ => hnone j
  rwa [List.drop_length] at hscan

/-- The first line comment counts if no block comment starts before it. -/
theorem scanLine_of_lineComment (h : lineComment? rest = some start) :
    scanLine false rest = (rest.take start, false) := by
  obtain ⟨hfound, hfirst⟩ := Option.filter_eq_some_iff.mp h
  obtain ⟨hstart, hline⟩ := (find?_eq_some_iff (by simp)).mp hfound
  have hblock : ∀ j < start, ¬ ['/', '*'] <+: rest.drop j := by
    intro j hj
    cases hblock : find? ['/', '*'] rest with
    | none => exact (find?_eq_none_iff (by simp)).mp hblock j
    | some blockStart =>
        rw [hblock] at hfirst
        have hlt : start < blockStart := of_decide_eq_true hfirst
        exact ((find?_eq_some_iff (by simp)).mp hblock).2 j (Nat.lt_trans hj hlt)
  rw [scanLine_take fun j hj => ⟨hline j hj, hblock j hj⟩, drop_eq_of_pair_prefix hstart]
  exact congrArg (·, false) (List.append_nil _)

/-- A block comment that starts first; a line comment in it has no meaning. -/
theorem scanLine_of_blockStart (hnone : lineComment? rest = none)
    (h : find? ['/', '*'] rest = some start) :
    scanLine false rest = (rest.take start ++ (scanLine true (rest.drop (start + 2))).1,
      (scanLine true (rest.drop (start + 2))).2) := by
  obtain ⟨hstart, hblock⟩ := (find?_eq_some_iff (by simp)).mp h
  -- a line comment in front of the block would have been found first
  have hline : ∀ j < start, ¬ ['/', '/'] <+: rest.drop j := by
    intro j hj
    cases hline : find? ['/', '/'] rest with
    | none => exact (find?_eq_none_iff (by simp)).mp hline j
    | some lineStart =>
        have hle : ¬ lineStart < start := by simpa [lineComment?, hline, h] using hnone
        have hlt : j < lineStart := by omega
        exact ((find?_eq_some_iff (by simp)).mp hline).2 j hlt
  rw [scanLine_take fun j hj => ⟨hline j hj, hblock j hj⟩, drop_eq_of_pair_prefix hstart]
  rfl

theorem scanLine_of_no_comment (hnone : lineComment? rest = none)
    (h : find? ['/', '*'] rest = none) : scanLine false rest = (rest, false) := by
  have hline : find? ['/', '/'] rest = none := by
    rw [Option.eq_none_iff_forall_ne_some]
    simpa [lineComment?, h] using hnone
  have hsigns : ∀ j < rest.length, ¬ ['/', '/'] <+: rest.drop j ∧ ¬ ['/', '*'] <+: rest.drop j :=
    fun j _ => ⟨(find?_eq_none_iff (by simp)).mp hline j, (find?_eq_none_iff (by simp)).mp h j⟩
  rw [scanLine_take hsigns, List.drop_length, List.take_length, scanLine_nil, List.append_nil]

end Rounds

/-! ## The whole search -/

/-- From a cursor on the search adds what the scan leaves of the rest of the line. -/
theorem stripFrom_eq {line : List Char} (rounds : Nat) : ∀ (inBlock : Bool) (cursor : Nat)
    (code : List Char), line.length ≤ cursor + rounds →
      stripFrom line rounds inBlock cursor code =
        (code ++ (scanLine inBlock (line.drop cursor)).1,
          (scanLine inBlock (line.drop cursor)).2) := by
  induction rounds with
  | zero =>
      intro inBlock cursor code hbound
      have hend : line.drop cursor = [] := List.drop_eq_nil_of_le hbound
      rw [hend, scanLine_nil, List.append_nil]
      rfl
  | succ rounds ih =>
      intro inBlock cursor code hbound
      rw [stripFrom]
      dsimp only
      by_cases hrest : (line.drop cursor).isEmpty = true
      · rw [if_pos hrest, List.isEmpty_iff.mp hrest, scanLine_nil, List.append_nil]
      rw [if_neg hrest]
      cases inBlock with
      | true =>
          rw [if_pos rfl]
          split
          · next stop hstop =>
            rw [ih _ _ _ (by omega), scanLine_of_stop hstop, List.drop_drop]
          · next hstop =>
            rw [scanLine_of_no_stop hstop, List.append_nil]
      | false =>
          rw [if_neg (by decide)]
          split
          · next start hline => rw [scanLine_of_lineComment hline]
          · next hline =>
            split
            · next hblock => rw [scanLine_of_no_comment hline hblock]
            · next start hblock =>
              rw [scanLine_of_blockStart hline hblock, ← List.append_assoc]
              -- a block comment is followed to its end in the round that finds its start
              split
              · next stop hstop =>
                rw [ih _ _ _ (by omega), scanLine_of_stop hstop, List.drop_drop, List.drop_drop]
              · next hstop => rw [scanLine_of_no_stop hstop, List.append_nil]

/-- **Searching a line and reading it are the same.** -/
theorem stripLine_eq_scanLine (inBlock : Bool) (line : List Char) :
    stripLine inBlock line = scanLine inBlock line := by
  rw [stripLine, stripFrom_eq line.length inBlock 0 [] (by omega)]
  rfl

end Script

end GemGrid
