import GemGrid.Proofs.Grid.Reading
import GemGrid.Proofs.Text

/-!
# The layout of maps that have been read

`Drawn` is what is known of a map that comes from a text, whichever rules were lifted: the grid is
a rectangle, every cell comes from a token and says the place that it stands at, and the start and
the portals are those of the grid.  It is enough to say where a run can go:

* `Drawn.start_spec`: the start is a cell of the grid, on the floor, that bears an arrow;
* `Drawn.partner_spec`: the other end of a portal is another cell with the same number.
-/

namespace GemGrid

/-! ## Cells -/

namespace Cell

/-- Only arrows make a start. -/
theorem start_of_ofToken {token : String} {row col : Nat} {cell : Cell}
    (h : ofToken token row col = .ok cell) (hstart : cell.isStart = true) :
    cell.isWall = false ∧ ∃ d, cell.direction = some d ∧ cell.token = d.arrow := by
  unfold ofToken at h
  dsimp only at h
  split at h
  · cases h
    cases hstart
  · -- only the arrows make a start
    split at h
    · next d harrow =>
      cases h
      have hfound : d.arrow == token := by simpa using List.find?_some harrow
      exact ⟨rfl, d, rfl, (eq_of_beq hfound).symm⟩
    · repeat' split at h
      all_goals cases h
      all_goals cases hstart

/-- A portal can be entered. -/
theorem isWall_of_warpId {token : String} {row col id : Nat} {cell : Cell}
    (h : ofToken token row col = .ok cell) (hwarp : cell.warpId = some id) :
    cell.isWall = false := by
  unfold ofToken at h
  dsimp only at h
  split at h
  · cases h
    cases hwarp
  · repeat' split at h
    all_goals cases h
    all_goals rfl

theorem warpId_le_of_ofToken {token : String} {row col id : Nat} {cell : Cell}
    (h : ofToken token row col = .ok cell) (hwarp : cell.warpId = some id) :
    id ≤ Text.max32 := by
  unfold ofToken at h
  dsimp only at h
  repeat' split at h
  all_goals cases h
  all_goals cases hwarp
  exact Text.le_of_digitsUpTo? (by assumption)

end Cell

namespace GridMap

/-! ## Rectangles -/

theorem foldl_width_le_iff (rows : List (List (List Char))) (v w : Nat) :
    rows.foldl (fun w row => max w row.length) v ≤ w ↔ v ≤ w ∧ ∀ row ∈ rows, row.length ≤ w := by
  induction rows generalizing v with
  | nil => simp
  | cons row rows ih =>
      rw [List.foldl_cons, ih, Nat.max_le, List.forall_mem_cons, and_assoc]

/-- The width is the least number that no row exceeds. -/
theorem width_le_iff {rows : List (List (List Char))} {w : Nat} :
    width rows ≤ w ↔ ∀ row ∈ rows, row.length ≤ w := by
  rw [width, foldl_width_le_iff]
  exact and_iff_right (Nat.zero_le w)

/-- The tokens of a text form a rectangle. -/
theorem length_of_mem_tokenRows {text : List Char} :
    ∀ row ∈ tokenRows text, row.length = width (tokenRows text) := by
  have hpadded : ∀ row ∈ tokenRows text, row.length = width ((rowLines text).map cut) := by
    intro row hrow
    obtain ⟨line, hline, rfl⟩ := List.mem_map.mp hrow
    have hle := width_le_iff.mp (Nat.le_refl _) line hline
    rw [pad, List.length_append, List.length_replicate, Nat.add_sub_cancel' hle]
  intro row hrow
  have hle : width (tokenRows text) ≤ row.length :=
    width_le_iff.mpr fun other hother =>
      Nat.le_of_eq ((hpadded other hother).trans (hpadded row hrow).symm)
  exact Nat.le_antisymm (width_le_iff.mp (Nat.le_refl _) row hrow) hle

/-! ## Maps -/

/-- What is known of a map that has been read. -/
structure Drawn (map : GridMap) : Prop where
  rows : map.grid.length = map.rows
  columns : ∀ row ∈ map.grid, row.length = map.columns
  tokens : ∀ p cell, map.cell? p = some cell →
    ∃ token, Cell.ofToken token p.row p.col = .ok cell
  start : map.start = (starts map.grid).getLast?
  portals : map.portals = portalsOf map.grid

/-- A map that has been read is drawn, whichever rules were lifted. -/
theorem drawn_of_read {rules : MapRules} {text : String} {map : GridMap}
    (h : read rules text = .ok map) : map.Drawn := by
  unfold read at h
  split at h
  · split at h
    · cases h
      exact ⟨rfl, by simp [empty], by simp [cell?, empty], rfl, rfl⟩
    · cases h
  · next htokens =>
    obtain ⟨grid, hgrid, h⟩ := exists_of_bind_eq_ok h
    obtain ⟨_, _, h⟩ := exists_of_bind_eq_ok h
    obtain ⟨_, _, h⟩ := exists_of_bind_eq_ok h
    cases h
    refine ⟨rfl, fun row hrow => ?_, fun p cell hcell => ?_, rfl, rfl⟩
    · -- each row of tokens was padded to the width, and reading keeps the length
      obtain ⟨r, hr⟩ := List.mem_iff_getElem?.mp hrow
      obtain ⟨⟨tokens, r'⟩, hzip, hread⟩ := getElem?_of_mapM_eq_ok hgrid hr
      have hmem : tokens ∈ tokenRows text.toList :=
        List.fst_mem_of_mem_zipIdx (List.mem_of_getElem? hzip)
      rw [length_of_mapM_eq_ok hread, List.length_zipIdx, length_of_mem_tokenRows tokens hmem]
      rfl
    · obtain ⟨row, hrow, hcol⟩ := Option.bind_eq_some_iff.mp hcell
      obtain ⟨_, token, _, _, hok⟩ := exists_token_of_readRows hgrid hrow hcol
      exact ⟨_, hok⟩

namespace Drawn

variable {map : GridMap}

/-- A cell says the place that it stands at. -/
theorem position (h : map.Drawn) {p : Position} {cell : Cell} (hcell : map.cell? p = some cell) :
    cell.position = p := by
  obtain ⟨_, hok⟩ := h.tokens p cell hcell
  exact Cell.position_of_ofToken hok

theorem inside (h : map.Drawn) {p : Position} {cell : Cell} (hcell : map.cell? p = some cell) :
    p.row < map.rows ∧ p.col < map.columns := by
  obtain ⟨row, hrow, hcol⟩ := Option.bind_eq_some_iff.mp hcell
  rw [← h.rows, ← h.columns row (List.mem_of_getElem? hrow)]
  exact ⟨(List.getElem?_eq_some_iff.mp hrow).1, (List.getElem?_eq_some_iff.mp hcol).1⟩

/-- Every cell of the grid is found at the place that it says. -/
theorem cell?_of_mem (h : map.Drawn) {cell : Cell} (hmem : cell ∈ map.grid.flatten) :
    map.cell? cell.position = some cell := by
  obtain ⟨row, hrow, hcell⟩ := List.mem_flatten.mp hmem
  obtain ⟨r, hr⟩ := List.mem_iff_getElem?.mp hrow
  obtain ⟨c, hc⟩ := List.mem_iff_getElem?.mp hcell
  have hfound : map.cell? { row := r, col := c } = some cell :=
    Option.bind_eq_some_iff.mpr ⟨row, hr, hc⟩
  rw [h.position hfound]
  exact hfound

/-- The start is a cell of the grid, on the floor, that bears an arrow. -/
theorem start_spec (h : map.Drawn) {start : Cell} (hstart : map.start = some start) :
    map.cell? start.position = some start ∧ start.isStart = true ∧ start.isWall = false ∧
      ∃ d, start.direction = some d ∧ start.token = d.arrow := by
  rw [h.start] at hstart
  obtain ⟨hmem, harrow⟩ := List.mem_filter.mp (List.mem_of_getLast? hstart)
  have hcell := h.cell?_of_mem hmem
  obtain ⟨_, hok⟩ := h.tokens _ _ hcell
  exact ⟨hcell, harrow, Cell.start_of_ofToken hok harrow⟩

/-- The other end of a portal is another cell with the same number. -/
theorem partner_spec (h : map.Drawn) {id : Nat} {p exit : Position}
    (hpartner : map.partner? id p = some exit) :
    exit ≠ p ∧ ∃ cell, map.cell? exit = some cell ∧ cell.warpId = some id ∧
      cell.isWall = false := by
  obtain ⟨cells, hcells, hfind⟩ := Option.bind_eq_some_iff.mp hpartner
  have hlisted := getD_get?_portalsOf map.grid id
  rw [← h.portals, hcells, Option.getD_some] at hlisted
  have hexit : exit ∈ portalCells id map.grid.flatten := hlisted ▸ List.mem_of_find?_eq_some hfind
  obtain ⟨cell, hcell, rfl⟩ := List.mem_map.mp hexit
  obtain ⟨hmem, hwarp⟩ := List.mem_filter.mp hcell
  have hfound := h.cell?_of_mem hmem
  obtain ⟨_, hok⟩ := h.tokens _ _ hfound
  have hid : cell.warpId = some id := by simpa using hwarp
  refine ⟨by simpa using List.find?_some hfind, cell, hfound, hid, ?_⟩
  exact Cell.isWall_of_warpId hok hid

end Drawn

end GridMap

end GemGrid
