import GemGrid.Proofs.Grid.Verdict
import GemGrid.Proofs.Text
import Mathlib.Algebra.Order.BigOperators.Group.List
import Mathlib.Algebra.Order.Ring.Nat
import Mathlib.Data.List.DropRight

/-!
# Maps that are written and read again

A map that has been read is written as the rows of its text, one line a row: the cells that a row
was filled up with leave nothing behind, and the lines without anything else are gone already
(`toText_of_read`).  Cutting these lines out of the new text gives the same lines, so reading gives
the same map.

There is one thing that stands in the way.  Byte order marks in front of a text are ignored, and
blank lines are removed only afterwards.  A mark behind a blank line is therefore part of the first
token, and comes to stand in front of the text when the map is written.  Reading drops it then.  As
what is dropped is missing from the rows (`length_intercalate_rowLines_le`), the map is a different
one, or there is none at all.

`read_toText_iff` says that this is the only case.
-/

namespace GemGrid

open Text

namespace Text

theorem trimEnd_append_of_blank {cs bs : List Char} (h : ∀ b ∈ bs, isBlank b = true) :
    trimEnd (cs ++ bs) = trimEnd cs := by
  have hreverse : ∀ b ∈ bs.reverse, isBlank b = true := fun b hb => h b (List.mem_reverse.mp hb)
  rw [trimEnd, List.reverse_append, List.dropWhile_append_of_pos hreverse, trimEnd]

@[simp] theorem trimEnd_trimEnd (cs : List Char) : trimEnd (trimEnd cs) = trimEnd cs := by
  rw [trimEnd, trimEnd, List.reverse_reverse, List.dropWhile_idempotent]

/-- Empty texts behind others leave the breaks in front of them. -/
theorem intercalate_append_replicate_nil {b : Char} {texts : List (List Char)} (hne : texts ≠ [])
    (k : Nat) : [b].intercalate (texts ++ List.replicate k []) =
      [b].intercalate texts ++ List.replicate k b := by
  induction texts with
  | nil => exact absurd rfl hne
  | cons text texts ih =>
      cases texts with
      | cons next texts =>
          have ih := ih (List.cons_ne_nil _ _)
          rw [List.cons_append] at ih ⊢
          rw [List.cons_append, List.intercalate_cons_cons, ih, List.intercalate_cons_cons,
            ← List.append_assoc]
      -- one text and k empty ones: k breaks behind it
      | nil =>
          rw [List.singleton_append, List.intercalate_singleton]
          clear ih hne
          induction k generalizing text with
          | zero => simp
          | succ k ih =>
              rw [List.replicate_succ, List.intercalate_cons_cons, ih []]
              simp [List.replicate_succ]

/-! ## Lengths -/

/-- Every text and a break behind it. -/
theorem length_intercalate_le (b : Char) (texts : List (List Char)) :
    ([b].intercalate texts).length ≤ (texts.map (·.length + 1)).sum - 1 := by
  induction texts with
  | nil => simp [List.intercalate]
  | cons text texts ih =>
      cases texts with
      | nil => simp
      | cons next texts =>
          simp only [List.intercalate_cons_cons, List.length_append, List.length_singleton,
            List.map_cons, List.sum_cons] at ih ⊢
          omega

theorem sum_length_pieces (isBreak : Char → Bool) (cs : List Char) :
    ((pieces isBreak cs).map (·.length + 1)).sum = cs.length + 1 := by
  induction cs with
  | nil => rfl
  | cons c cs ih =>
      rw [pieces]
      split
      · simp [ih, Nat.add_comm]
      · split
        · next hnil => exact absurd hnil (pieces_ne_nil _ _)
        · next piece rest hpieces =>
          simp only [hpieces, List.map_cons, List.sum_cons, List.length_cons] at ih ⊢
          omega

end Text

namespace GridMap

/-! ## Lines of rows -/

/-- A line of a row holds something, has no blank at its end and no line break. -/
theorem mem_rowLines {text line : List Char} (h : line ∈ rowLines text) :
    line ≠ [] ∧ trimEnd line = line ∧ ∀ c ∈ line, c ≠ '\r' ∧ c ≠ '\n' := by
  obtain ⟨hmem, hne⟩ := List.mem_filter.mp h
  obtain ⟨piece, hpiece, rfl⟩ := List.mem_map.mp hmem
  refine ⟨by simpa using hne, trimEnd_trimEnd piece, fun c hc => ?_⟩
  have hbreak := not_isBreak_of_mem_pieces _ _ piece hpiece c ((isPrefix_trimEnd piece).subset hc)
  simpa using hbreak

/-- The lines of a text that does not start with a byte order mark are found again. -/
theorem rowLines_intercalate {text : List Char}
    (hmark : (['\n'].intercalate (rowLines text)).head? ≠ some '\uFEFF') :
    rowLines (['\n'].intercalate (rowLines text)) = rowLines text := by
  by_cases hne : rowLines text = []
  · rw [hne]
    decide
  -- the lines are clean, so marks, breaks, trimming and dropping do nothing the second time
  have hdrop : (['\n'].intercalate (rowLines text)).dropWhile (· == '\uFEFF') =
      ['\n'].intercalate (rowLines text) := by
    rw [List.dropWhile_eq_self_iff]
    intro hpos hfirst
    refine hmark ?_
    rw [List.head?_eq_getElem?, List.getElem?_eq_getElem hpos, eq_of_beq hfirst]
  have hpieces : pieces (fun c => c == '\r' || c == '\n') (['\n'].intercalate (rowLines text)) =
      rowLines text := by
    refine pieces_intercalate_of_isBreak (by decide) hne fun line hline c hc => ?_
    simpa using (mem_rowLines hline).2.2 c hc
  have htrim : (rowLines text).map trimEnd = rowLines text := by
    conv_rhs => rw [← List.map_id (rowLines text)]
    exact List.map_congr_left fun line hline => (mem_rowLines hline).2.1
  conv_lhs => rw [rowLines, hdrop, hpieces, htrim]
  refine List.filter_eq_self.mpr fun line hline => ?_
  simpa using (mem_rowLines hline).1

/-- The lines of rows are not longer than the text behind its byte order marks. -/
theorem length_intercalate_rowLines_le (text : List Char) :
    (['\n'].intercalate (rowLines text)).length ≤
      (text.dropWhile (· == '\uFEFF')).length := by
  let lines := pieces (fun c => c == '\r' || c == '\n') (text.dropWhile (· == '\uFEFF'))
  have hrows : ((rowLines text).map (·.length + 1)).sum ≤ (lines.map (·.length + 1)).sum := by
    calc ((rowLines text).map (·.length + 1)).sum
        ≤ ((lines.map trimEnd).map (·.length + 1)).sum :=
          (List.filter_sublist.map _).sum_le_sum fun _ _ => Nat.zero_le _
      _ ≤ (lines.map (·.length + 1)).sum := by
          rw [List.map_map]
          exact List.sum_le_sum fun line _ => Nat.succ_le_succ (length_trimEnd_le line)
  rw [sum_length_pieces] at hrows
  have hlength := length_intercalate_le '\n' (rowLines text)
  omega

/-! ## Written maps -/

theorem token_of_ofToken {token : List Char} {row col : Nat} {cell : Cell}
    (h : Cell.ofToken (String.ofList token) row col = .ok cell) : cell.token.toList = token := by
  rw [(Legend.means_of_ofToken h).bears, String.toList_ofList]

/-- Cells that a row was filled up with leave nothing behind. -/
theorem trimEnd_intercalate_pad {line : List Char} (hline : trimEnd line = line) (w : Nat) :
    trimEnd (['\t'].intercalate (pad w (cut line))) = line := by
  have hblank : ∀ c ∈ List.replicate (w - (cut line).length) '\t', isBlank c = true := by
    intro c hc
    rw [List.eq_of_mem_replicate hc]
    decide
  have hcells : cut line ≠ [] := pieces_ne_nil _ _
  rw [pad, intercalate_append_replicate_nil hcells, trimEnd_append_of_blank hblank, cut,
    intercalate_pieces, hline]

/-- A map that has been read is written as the lines of its rows. -/
theorem toText_of_read {rules : MapRules} {text : String} {map : GridMap}
    (h : read rules text = .ok map) :
    map.toText.toList = ['\n'].intercalate (rowLines text.toList) := by
  obtain ⟨grid, hgrid, rfl, -⟩ := exists_grid_of_read h
  have htokens := map_map_of_readRows (fun _ _ _ _ => token_of_ofToken) hgrid
  have hrows : grid.map rowText = rowLines text.toList := by
    calc grid.map rowText
        = (grid.map (·.map (·.token.toList))).map fun row =>
            trimEnd (['\t'].intercalate row) := by rw [List.map_map]; rfl
      _ = (tokenRows text.toList).map fun row => trimEnd (['\t'].intercalate row) := by
          rw [htokens]
          simp
      _ = (rowLines text.toList).map id := by
          rw [tokenRows, List.map_map, List.map_map]
          -- what the padding added is blank and goes with the trim
          exact List.map_congr_left fun line hline =>
            trimEnd_intercalate_pad (mem_rowLines hline).2.1 _
      _ = rowLines text.toList := List.map_id _
  rw [toText, String.toList_ofList]
  exact congrArg _ hrows

/-- What is read depends on the lines of rows only. -/
theorem read_congr (rules : MapRules) {text text' : String}
    (h : rowLines text.toList = rowLines text'.toList) : read rules text = read rules text' := by
  have htokens : tokenRows text.toList = tokenRows text'.toList := by
    rw [tokenRows, tokenRows, h]
  rw [read, read, htokens]

/-- **A map that is written is read again, unless its text starts with a byte order mark.**  Under
the rules that allowed the map, reading the text that it is written as gives the map back if no
byte order mark comes to stand in front of that text, and does not give it back if one does. -/
theorem read_toText_iff {rules : MapRules} {text : String} {map : GridMap}
    (h : read rules text = .ok map) :
    read rules map.toText = .ok map ↔ map.toText.toList.head? ≠ some '\uFEFF' := by
  have htext := toText_of_read h
  constructor
  · -- the text with its mark would be read without it, and come out shorter than it is
    intro hagain hmark
    have hlength := length_intercalate_rowLines_le map.toText.toList
    rw [← toText_of_read hagain] at hlength
    obtain ⟨rest, hrest⟩ := List.head?_eq_some_iff.mp hmark
    rw [hrest, List.dropWhile_cons_of_pos (by decide)] at hlength
    have hdropped := (List.dropWhile_suffix (l := rest) (· == '\uFEFF')).length_le
    rw [List.length_cons] at hlength
    omega
  · intro hmark
    rw [← h]
    refine read_congr rules ?_
    rw [htext] at hmark ⊢
    exact rowLines_intercalate hmark

/-- Tabs and blanks of all kinds, short rows and blank lines; a mark inside the text is kept. -/
theorem read_toText_iff_ragged :
    let text := "\uFEFF\r\n \u00A0\t\r→\t \tW3\u3000\t\n\t\n\t\t\uFEFF♦\t●\r\nW03"
    ∃ map, read {} text = .ok map ∧ map.toText = "→\t \tW3\n\t\t\uFEFF♦\t●\nW03" ∧
      read {} map.toText = .ok map := by
  intro text
  have heval : (read {} text).toOption.map (·.toText) =
      some "→\t \tW3\n\t\t\uFEFF♦\t●\nW03" := by
    decide +kernel
  obtain ⟨map, hmap, htext⟩ := Option.map_eq_some_iff.mp heval
  replace hmap := eq_ok_of_toOption hmap
  refine ⟨map, hmap, htext, (read_toText_iff hmap).mpr ?_⟩
  rw [htext]
  decide

/-- A byte order mark behind a blank line keeps the first arrow from being one.  The written map
starts with the mark, and read again it has two starts. -/
theorem not_read_toText_mark_behind_blank_line :
    ∃ map, read {} "\n\uFEFF→\t→" = .ok map ∧ map.toText = "\uFEFF→\t→" ∧
      read {} map.toText = .error (.manyStarts 2) := by
  have heval : (read {} "\n\uFEFF→\t→").toOption.map (·.toText) = some "\uFEFF→\t→" := by
    decide +kernel
  obtain ⟨map, hmap, htext⟩ := Option.map_eq_some_iff.mp heval
  refine ⟨map, eq_ok_of_toOption hmap, htext, ?_⟩
  rw [htext, ← errorOf?_eq_some_iff]
  decide +kernel

end GridMap

end GemGrid
