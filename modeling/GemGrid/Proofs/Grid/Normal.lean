import GemGrid.Proofs.Grid.RoundTrip

/-!
# The text that a map is written as

A map that has been read is written in the normal form of its text: without byte order marks in
front, cut at every CR and LF, without blanks at the ends of the lines, and without empty lines.

Two things could go wrong on the way through the grid.  The cells that fill up a short row come
back as tabs at the end of its line, where they are blanks and are trimmed off again.  And trimming
could take more than that, but the line of a row has no blank at its end to begin with, so nothing
of the row itself goes away (`toText_of_read`).

`normalLines` says what the normal form is with the functions on lists alone, and `Emits` what
comes of it: the text, and the cells that are found in it.
-/

namespace GemGrid

open Text

/-- The pieces of a text are the parts that the list of its characters splits into. -/
theorem Text.pieces_eq_splitOnP (isBreak : Char → Bool) (cs : List Char) :
    pieces isBreak cs = cs.splitOnP isBreak := by
  induction cs with
  | nil => rfl
  | cons c cs ih =>
      have hne : cs.splitOnP isBreak ≠ [] := ih ▸ pieces_ne_nil isBreak cs
      rw [pieces, List.splitOnP_cons_eq_if_modifyHead, ih]
      obtain ⟨piece, rest, hpieces⟩ := List.exists_cons_of_ne_nil hne
      rw [hpieces]
      rfl

namespace GridMap

/-! ## Normal forms -/

/-- The lines of a text in normal form. -/
def normalLines (text : List Char) : List (List Char) :=
  (((text.dropWhile (· == '\uFEFF')).splitOnP fun c => c == '\r' || c == '\n').map
    (·.rdropWhile isBlank)).filter (· ≠ [])

/-- The normal form of a text. -/
def normalText (text : String) : String :=
  String.ofList (['\n'].intercalate (normalLines text.toList))

/-- The rows of a map are read off the lines in normal form. -/
theorem rowLines_eq_normalLines (text : List Char) : rowLines text = normalLines text := by
  rw [rowLines, normalLines, pieces_eq_splitOnP]
  exact List.filter_congr fun line _ => by cases line <;> rfl

theorem cut_eq_splitOn (line : List Char) : cut line = line.splitOn '\t' := by
  rw [cut, pieces_eq_splitOnP, List.splitOn_eq_splitOnP]

/-! ## What a map shows of its text -/

/-- The tokens of a map that has been read are those of its text, row by row. -/
theorem tokens_of_read {rules : MapRules} {text : String} {map : GridMap}
    (h : read rules text = .ok map) :
    map.grid.map (·.map (·.token.toList)) = tokenRows text.toList := by
  obtain ⟨grid, hgrid, rfl, -⟩ := exists_grid_of_read h
  have htokens := map_map_of_readRows (fun _ _ _ _ => token_of_ofToken) hgrid
  simp only [List.map_id'] at htokens
  exact htokens

/-- A map is as wide as every row of it: the cells of the line and those that fill it up. -/
theorem columns_of_read {rules : MapRules} {text : String} {map : GridMap}
    (h : read rules text = .ok map) {line : List Char} (hline : line ∈ rowLines text.toList) :
    map.columns = (cut line).length +
      (width ((rowLines text.toList).map cut) - (cut line).length) := by
  obtain ⟨grid, _, rfl, -⟩ := exists_grid_of_read h
  have hrow : pad (width ((rowLines text.toList).map cut)) (cut line) ∈ tokenRows text.toList :=
    List.mem_map_of_mem (List.mem_map_of_mem hline)
  calc width (tokenRows text.toList)
      = (pad (width ((rowLines text.toList).map cut)) (cut line)).length :=
        (length_of_mem_tokenRows _ hrow).symm
    _ = (cut line).length + (width ((rowLines text.toList).map cut) - (cut line).length) := by
        rw [pad, List.length_append, List.length_replicate]

/-- The map is written in the normal form of a text, and its grid shows the cells of that form. -/
structure Emits (map : GridMap) (text : String) : Prop where
  normal : map.toText = normalText text
  /-- A row has the cells of its line, and behind them nothing but padding. -/
  tokens : map.grid.map (·.map (·.token.toList)) = (normalLines text.toList).map fun line =>
    line.splitOn '\t' ++ List.replicate (map.columns - (line.splitOn '\t').length) []
  /-- No row is cut off. -/
  whole : ∀ line ∈ normalLines text.toList, (line.splitOn '\t').length ≤ map.columns

/-- **A map that has been read is written in the normal form of its text.**  The cells that fill up
short rows never show, and every cell of the normal form is kept as it is written there. -/
theorem emits_of_read {rules : MapRules} {text : String} {map : GridMap}
    (h : read rules text = .ok map) : map.Emits text := by
  have hlines := rowLines_eq_normalLines text.toList
  have hcolumns := fun line (hline : line ∈ rowLines text.toList) => columns_of_read h hline
  rw [hlines] at hcolumns
  refine
    { normal := ?_
      tokens := ?_
      whole := fun line hline => ?_ }
  · rw [normalText, ← hlines, ← toText_of_read h, String.ofList_toList]
  · rw [tokens_of_read h, tokenRows, hlines, List.map_map]
    refine List.map_congr_left fun line hline => ?_
    -- the padding is what the line lacks to the widest one
    have hpadding : width ((normalLines text.toList).map cut) - (cut line).length =
        map.columns - (cut line).length := by
      have hwide := hcolumns line hline
      omega
    rw [← cut_eq_splitOn, Function.comp_apply, pad, hpadding]
  · have hwide := hcolumns line hline
    rw [← cut_eq_splitOn]
    omega

/-- Marks and blank lines in front, blanks of all kinds, empty cells inside a row, and a row that is
filled up; a blank in front of a token and a mark inside the text are kept. -/
theorem emits_of_read_ragged :
    let text := "\uFEFF\uFEFF\r\n \u00A0\t\r→\t \tW3\u3000\t\n\t\n\t\t\uFEFF♦\t●\r\n W03\rW3\u2028"
    ∃ map, read {} text = .ok map ∧ map.Emits text ∧
      map.toText = "→\t \tW3\n\t\t\uFEFF♦\t●\n W03\nW3" ∧
      map.grid.map (·.map (·.token)) =
        [["→", " ", "W3", ""], ["", "", "\uFEFF♦", "●"], [" W03", "", "", ""],
          ["W3", "", "", ""]] := by
  intro text
  have heval : ((read {} text).toOption.map fun map =>
      (map.toText, map.grid.map (·.map (·.token)))) =
      some ("→\t \tW3\n\t\t\uFEFF♦\t●\n W03\nW3",
        [["→", " ", "W3", ""], ["", "", "\uFEFF♦", "●"], [" W03", "", "", ""],
          ["W3", "", "", ""]]) := by
    decide +kernel
  obtain ⟨map, hmap, heval⟩ := Option.map_eq_some_iff.mp heval
  simp only [Prod.mk.injEq] at heval
  replace hmap := eq_ok_of_toOption hmap
  exact ⟨map, hmap, emits_of_read hmap, heval⟩

end GridMap

end GemGrid
