import GemGrid.Grid.Reader
import GemGrid.Proofs.OrderedMap
import GemGrid.Proofs.Results
import Mathlib.Data.List.Basic

/-!
# Maps that have been read

What is known of a map that comes from a text.

* `position_of_readRows`: a cell stands at the place that it says it has, so no two cells of a grid
  say the same (`nodup_positions`).
* `getD_get?_portalsOf`: the portals of a grid list, for each number, the cells that bear it.
* `Sound` is what a map has when all the rules were in force (`sound_of_read`): it has a start, and
  every portal leads somewhere, whichever place one comes from (`Sound.exists_partner`).
-/

namespace GemGrid

/-! ## Places -/

theorem Cell.position_of_ofToken {token : String} {row col : Nat} {cell : Cell}
    (h : Cell.ofToken token row col = .ok cell) : cell.position = { row, col } := by
  unfold ofToken at h
  dsimp only at h
  repeat' split at h
  all_goals cases h
  all_goals rfl

namespace GridMap

/-- A cell that has been read comes from the token at its place. -/
theorem exists_token_of_readRows {rows : List (List (List Char))} {grid : List (List Cell)}
    (h : readRows rows = .ok grid) {r c : Nat} {row : List Cell} {cell : Cell}
    (hrow : grid[r]? = some row) (hcell : row[c]? = some cell) :
    ∃ tokens token, rows[r]? = some tokens ∧ tokens[c]? = some token ∧
      Cell.ofToken (String.ofList token) r c = .ok cell := by
  obtain ⟨⟨tokens, r'⟩, hzip, hread⟩ := getElem?_of_mapM_eq_ok h hrow
  obtain ⟨⟨token, c'⟩, hzip', hread'⟩ := getElem?_of_mapM_eq_ok hread hcell
  -- the rows and the tokens carry their numbers, which become those of the cell
  rw [List.getElem?_zipIdx] at hzip hzip'
  obtain ⟨_, htokens, hr⟩ := Option.map_eq_some_iff.mp hzip
  obtain ⟨_, htoken, hc⟩ := Option.map_eq_some_iff.mp hzip'
  simp only [Prod.mk.injEq, Nat.zero_add] at hr hc
  obtain ⟨rfl, rfl⟩ := hr
  obtain ⟨rfl, rfl⟩ := hc
  dsimp only at hread'
  split at hread'
  · next hok =>
    cases hread'
    exact ⟨_, _, htokens, htoken, hok⟩
  · cases hread'

/-- A cell that has been read says the place that it stands at. -/
theorem position_of_readRows {rows : List (List (List Char))} {grid : List (List Cell)}
    (h : readRows rows = .ok grid) {r c : Nat} {row : List Cell} {cell : Cell}
    (hrow : grid[r]? = some row) (hcell : row[c]? = some cell) :
    cell.position = { row := r, col := c } := by
  obtain ⟨_, _, _, _, hok⟩ := exists_token_of_readRows h hrow hcell
  exact Cell.position_of_ofToken hok

/-- No two cells of a grid that has been read say the same place. -/
theorem nodup_positions {rows : List (List (List Char))} {grid : List (List Cell)}
    (h : readRows rows = .ok grid) : (grid.flatten.map (·.position)).Nodup := by
  rw [List.Nodup, List.pairwise_map, List.pairwise_flatten]
  constructor
  · -- two cells of a row differ in their columns, cells of two rows in their rows
    intro row hrow
    obtain ⟨r, hr⟩ := List.mem_iff_getElem?.mp hrow
    rw [List.pairwise_iff_getElem]
    intro i j hi hj hlt heq
    rw [position_of_readRows h hr (List.getElem?_eq_getElem hi),
      position_of_readRows h hr (List.getElem?_eq_getElem hj)] at heq
    exact Nat.ne_of_lt hlt (congrArg Position.col heq)
  · rw [List.pairwise_iff_getElem]
    intro r s hr hs hlt x hx y hy heq
    obtain ⟨i, hi⟩ := List.mem_iff_getElem?.mp hx
    obtain ⟨j, hj⟩ := List.mem_iff_getElem?.mp hy
    rw [position_of_readRows h (List.getElem?_eq_getElem hr) hi,
      position_of_readRows h (List.getElem?_eq_getElem hs) hj] at heq
    exact Nat.ne_of_lt hlt (congrArg Position.row heq)

/-! ## Portals -/

/-- The places of the cells that bear a portal number. -/
def portalCells (id : Nat) (cells : List Cell) : List Position :=
  (cells.filter (·.warpId == some id)).map (·.position)

theorem getD_get?_addPortal (portals : OrderedMap Nat (List Position)) (cell : Cell) (id : Nat) :
    ((addPortal portals cell).get? id).getD [] =
      (portals.get? id).getD [] ++ portalCells id [cell] := by
  unfold addPortal portalCells
  cases hwarp : cell.warpId with
  | none => simp [hwarp]
  | some other =>
      rw [OrderedMap.get?_insert]
      by_cases h : id = other
      · simp [hwarp, h]
      · simp [hwarp, h, Ne.symm h]

/-- Collecting the portals of some cells lists, for each number, the cells that bear it. -/
theorem getD_get?_foldl_addPortal (id : Nat) (cells : List Cell)
    (portals : OrderedMap Nat (List Position)) :
    ((cells.foldl addPortal portals).get? id).getD [] =
      (portals.get? id).getD [] ++ portalCells id cells := by
  induction cells generalizing portals with
  | nil => simp [portalCells]
  | cons cell cells ih =>
      have hsplit : portalCells id (cell :: cells) =
          portalCells id [cell] ++ portalCells id cells := by
        rw [← List.singleton_append]
        simp only [portalCells, List.filter_append, List.map_append]
      rw [List.foldl_cons, ih, getD_get?_addPortal, hsplit, List.append_assoc]

theorem getD_get?_portalsOf (grid : List (List Cell)) (id : Nat) :
    ((portalsOf grid).get? id).getD [] = portalCells id grid.flatten :=
  getD_get?_foldl_addPortal id grid.flatten .empty

/-- Of two different places one is not the given one. -/
theorem find?_ne_isSome {p : Position} {cells : List Position} (hnodup : cells.Nodup)
    (hlength : cells.length = 2) : (cells.find? (· != p)).isSome := by
  obtain ⟨a, b, rfl⟩ := List.length_eq_two.mp hlength
  have hne : a ≠ b := by simpa using hnodup
  rw [List.find?_isSome]
  by_cases ha : a = p
  · exact ⟨b, by simp, by simpa [ha] using hne.symm⟩
  · exact ⟨a, by simp, by simpa using ha⟩

/-! ## Maps that meet the rules -/

/-- What a map has that has been read with all the rules in force. -/
structure Sound (map : GridMap) : Prop where
  start : map.start.isSome
  nodup : (map.grid.flatten.map (·.position)).Nodup
  portals : map.portals = portalsOf map.grid
  paired : ∀ id cells, map.portals.get? id = some cells → cells.length = 2

theorem length_of_checkPortals {rules : MapRules} {map : GridMap}
    (hrules : rules.allowUnpairedPortals = false) (h : checkPortals rules map = .ok ()) {id : Nat}
    {cells : List Position} (hcells : map.portals.get? id = some cells) : cells.length = 2 := by
  unfold checkPortals at h
  rw [hrules, if_neg Bool.false_ne_true] at h
  split at h
  · cases h
  · next hnone =>
    have := List.find?_eq_none.mp hnone _ (OrderedMap.mem_entries_of_get? hcells)
    simpa using this

theorem exists_start_of_checkStarts {rules : MapRules} {grid : List (List Cell)}
    (hrules : rules.allowMissingStart = false) (h : checkStarts rules grid = .ok ()) :
    ∃ start, starts grid = [start] := by
  unfold checkStarts at h
  rw [hrules, if_neg Bool.false_ne_true] at h
  split at h
  · cases h
  · next hlength => exact List.length_eq_one_iff.mp hlength
  · cases h

/-- A map that has been read with all the rules in force is sound. -/
theorem sound_of_read {text : String} {map : GridMap} (h : read {} text = .ok map) :
    map.Sound := by
  unfold read at h
  split at h
  · cases h
  · obtain ⟨grid, hgrid, h⟩ := exists_of_bind_eq_ok h
    obtain ⟨_, hstarts, h⟩ := exists_of_bind_eq_ok h
    obtain ⟨_, hportals, h⟩ := exists_of_bind_eq_ok h
    cases h
    obtain ⟨start, hstart⟩ := exists_start_of_checkStarts rfl hstarts
    have hsome : (starts grid).getLast?.isSome := by rw [hstart]; rfl
    exact ⟨hsome, nodup_positions hgrid, rfl, fun _ _ => length_of_checkPortals rfl hportals⟩

/-- A portal of a sound map leads somewhere, whichever place one comes from. -/
theorem Sound.exists_partner {map : GridMap} (hmap : map.Sound) {p q : Position} {cell : Cell}
    {id : Nat} (hcell : map.cell? p = some cell) (hwarp : cell.warpId = some id) :
    ∃ exit, map.partner? id q = some exit := by
  obtain ⟨row, hrow, hcol⟩ := Option.bind_eq_some_iff.mp hcell
  have hmem : cell ∈ map.grid.flatten :=
    List.mem_flatten.mpr ⟨row, List.mem_of_getElem? hrow, List.mem_of_getElem? hcol⟩
  have hlisted : (map.portals.get? id).getD [] = portalCells id map.grid.flatten := by
    rw [hmap.portals, getD_get?_portalsOf]
  have hbears : cell.position ∈ portalCells id map.grid.flatten :=
    List.mem_map_of_mem (List.mem_filter.mpr ⟨hmem, by simp [hwarp]⟩)
  cases hget : map.portals.get? id with
  | none =>
      -- the cell itself bears the number
      rw [← hlisted, hget] at hbears
      simp at hbears
  | some cells =>
      rw [hget, Option.getD_some] at hlisted
      have hnodup : cells.Nodup := by
        rw [hlisted]
        exact hmap.nodup.sublist (List.filter_sublist.map _)
      obtain ⟨exit, hexit⟩ :=
        Option.isSome_iff_exists.mp (find?_ne_isSome hnodup (hmap.paired id cells hget))
      exact ⟨exit, Option.bind_eq_some_iff.mpr ⟨cells, hget, hexit⟩⟩

end GridMap

end GemGrid
