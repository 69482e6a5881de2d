import GemGrid.Proofs.Grid.Layout

/-!
# What a map that has been read says about its text

A map that comes from a text shows every token of it, and everything else that a run needs to know
is read off the cells.

* `Legend.Means` says what a token means, one attribute of a cell at a time.
* `GridMap.Depicts rules text map` is the whole: the grid is a rectangle, each cell bears the token at
  its place in the text, and start, gems, switches and portals are those of the cells.  It holds of
  every map that is read (`depicts_of_read`).

The cells of a grid come in the order of their places (`Drawn.sorted`).  This is why the last start
is the greatest, and why the cells of a portal are listed in increasing order.
-/

namespace GemGrid

/-! ## The legend -/

/-- What a token means for the cell that bears it. -/
structure Legend.Means (token : String) (cell : Cell) : Prop where
  bears : cell.token = token
  wall : cell.ground = .wall ↔ token = Legend.wall
  start : cell.isStart = true ↔ ∃ d : Direction, token = d.arrow
  direction : ∀ d : Direction, cell.direction = some d ↔ token = d.arrow
  gem : cell.hasGem = true ↔ token = Legend.gem
  opened : cell.switchState = some .opened ↔ token = Legend.openSwitch
  closed : cell.switchState = some .closed ↔ token = Legend.closedSwitch
  portal : ∀ id, cell.warpId = some id ↔
    ∃ digits, token.toList = Legend.portalMark :: digits ∧ Text.digits? digits = some id

namespace Legend

theorem portalDigits?_eq_some_iff {token : String} {digits : List Char} :
    portalDigits? token = some digits ↔
      token.toList = portalMark :: digits ∧ (Text.digits? digits).isSome = true := by
  unfold portalDigits?
  split
  · next hnil => simp [hnil]
  · next c rest hcons =>
    rw [hcons]
    constructor
    · intro h
      split at h
      · next hportal =>
        cases h
        exact ⟨by rw [hportal.1], hportal.2⟩
      · cases h
    · rintro ⟨hsame, hdigits⟩
      cases hsame
      exact if_pos ⟨rfl, hdigits⟩

theorem not_portal {token : String} (h : portalDigits? token = none) (id : Nat) :
    ¬ ∃ digits, token.toList = portalMark :: digits ∧ Text.digits? digits = some id := by
  rintro ⟨digits, htoken, hdigits⟩
  have hsome := portalDigits?_eq_some_iff.mpr ⟨htoken, by rw [hdigits]; rfl⟩
  rw [h] at hsome
  cases hsome

theorem ne_arrow {token : String} (h : Direction.ofArrow? token = none) (d : Direction) :
    token ≠ d.arrow := by
  rintro rfl
  cases d <;> cases h

/-- An arrow is no other sign of the legend. -/
theorem arrow_ne (d : Direction) : d.arrow ≠ wall ∧ d.arrow ≠ gem ∧ d.arrow ≠ openSwitch ∧
    d.arrow ≠ closedSwitch ∧ portalDigits? d.arrow = none := by
  cases d <;> decide

theorem arrow_inj {d e : Direction} : d.arrow = e.arrow ↔ d = e := by
  cases d <;> cases e <;> decide

/-- What a token means that is no arrow and no portal. -/
theorem means_of_glyph (token : String) (row col : Nat) (ground : Ground) (hasGem : Bool)
    (switchState : Option SwitchState) (harrow : Direction.ofArrow? token = none)
    (hportal : portalDigits? token = none) (hwall : ground = .wall ↔ token = wall)
    (hgem : hasGem = true ↔ token = gem)
    (hopened : switchState = some .opened ↔ token = openSwitch)
    (hclosed : switchState = some .closed ↔ token = closedSwitch) :
    Means token { Cell.floor token row col with ground, hasGem, switchState } where
  bears := rfl
  wall := hwall
  start := by simp [Cell.floor, ne_arrow harrow]
  direction := by simp [Cell.floor, ne_arrow harrow]
  gem := hgem
  opened := hopened
  closed := hclosed
  portal := by simpa [Cell.floor] using not_portal hportal

theorem means_of_arrow (d : Direction) (row col : Nat) :
    Means d.arrow { Cell.floor d.arrow row col with isStart := true, direction := some d } := by
  obtain ⟨hwall, hgem, hopened, hclosed, hportal⟩ := arrow_ne d
  exact
    { bears := rfl
      wall := by simp [Cell.floor, hwall]
      start := by simp
      direction := fun e => by simp [arrow_inj]
      gem := by simp [Cell.floor, hgem]
      opened := by simp [Cell.floor, hopened]
      closed := by simp [Cell.floor, hclosed]
      portal := by simpa [Cell.floor] using not_portal hportal }

theorem means_of_portal {token : String} {digits : List Char} {id : Nat}
    (htoken : token.toList = portalMark :: digits) (hid : Text.digits? digits = some id)
    (row col : Nat) : Means token { Cell.floor token row col with warpId := some id } := by
  have hne : ∀ glyph : String, glyph.toList.head? ≠ some portalMark → token ≠ glyph := by
    rintro glyph hhead rfl
    rw [htoken] at hhead
    exact hhead rfl
  have harrow : ∀ d : Direction, token ≠ d.arrow := fun d => hne _ (by cases d <;> decide)
  exact
    { bears := rfl
      wall := by simp [Cell.floor, hne wall (by decide)]
      start := by simp [Cell.floor, harrow]
      direction := by simp [Cell.floor, harrow]
      gem := by simp [Cell.floor, hne gem (by decide)]
      opened := by simp [Cell.floor, hne openSwitch (by decide)]
      closed := by simp [Cell.floor, hne closedSwitch (by decide)]
      portal := by simp [htoken, hid] }

/-- A cell that has been read has the meaning of its token. -/
theorem means_of_ofToken {token : String} {row col : Nat} {cell : Cell}
    (h : Cell.ofToken token row col = .ok cell) : Means token cell := by
  unfold Cell.ofToken at h
  dsimp only at h
  split at h
  · -- the glyphs in the order of the reader, so that each case may use that the ones before failed
    next hwall =>
    subst hwall
    cases h
    exact means_of_glyph wall row col .wall false none rfl (by decide) (by decide) (by decide)
      (by decide) (by decide)
  next hwall =>
  split at h
  · next d hd =>
    have hfound : d.arrow = token := by simpa using List.find?_some hd
    subst hfound
    cases h
    exact means_of_arrow d row col
  next harrow =>
  split at h
  · next hgem =>
    subst hgem
    cases h
    exact means_of_glyph gem row col .floor true none harrow (by decide) (by decide) (by decide)
      (by decide) (by decide)
  next hgem =>
  split at h
  · next hopened =>
    subst hopened
    cases h
    exact means_of_glyph openSwitch row col .floor false (some .opened) harrow (by decide)
      (by decide) (by decide) (by decide) (by decide)
  next hopened =>
  split at h
  · next hclosed =>
    subst hclosed
    cases h
    exact means_of_glyph closedSwitch row col .floor false (some .closed) harrow (by decide)
      (by decide) (by decide) (by decide) (by decide)
  next hclosed =>
  split at h
  · next hportal =>
    cases h
    exact means_of_glyph token row col .floor false none harrow hportal (by simpa using hwall)
      (by simpa using hgem) (by simpa using hopened) (by simpa using hclosed)
  · -- with a mark of a portal, digits follow, and the reader had to find their value in range
    next digits hdigits =>
    split at h
    · next id hid =>
      cases h
      have hvalue : Text.digits? digits = some id := (Option.filter_eq_some_iff.mp hid).1
      exact means_of_portal (portalDigits?_eq_some_iff.mp hdigits).1 hvalue row col
    · cases h

end Legend

namespace GridMap

/-! ## Tokens in their places -/

theorem getElem?_pad {w c : Nat} {row : List (List Char)} {token : List Char}
    (h : (pad w row)[c]? = some token) : token = row[c]?.getD [] := by
  rw [pad, List.getElem?_append] at h
  split at h
  · rw [h, Option.getD_some]
  · next hc =>
    have hblank : token = [] := List.eq_of_mem_replicate (List.mem_of_getElem? h)
    rw [List.getElem?_eq_none (Nat.not_lt.mp hc), hblank, Option.getD_none]

/-- A token stands in the line of its row, or behind the end of it. -/
theorem exists_line_of_tokenRows {text : List Char} {r c : Nat} {tokens : List (List Char)}
    {token : List Char} (hrow : (tokenRows text)[r]? = some tokens)
    (htoken : tokens[c]? = some token) :
    ∃ line, (rowLines text)[r]? = some line ∧ token = (cut line)[c]?.getD [] := by
  rw [tokenRows, List.getElem?_map, List.getElem?_map] at hrow
  obtain ⟨cells, hcells, rfl⟩ := Option.map_eq_some_iff.mp hrow
  obtain ⟨line, hline, rfl⟩ := Option.map_eq_some_iff.mp hcells
  exact ⟨line, hline, getElem?_pad htoken⟩

/-- A map that has been read is made from the cells of its text.  A text without rows gives the map
without cells. -/
theorem exists_grid_of_read {rules : MapRules} {text : String} {map : GridMap}
    (h : read rules text = .ok map) :
    ∃ grid, readRows (tokenRows text.toList) = .ok grid ∧
      map = ofCells (width (tokenRows text.toList)) grid ∧
      (grid ≠ [] → checkStarts rules grid = .ok ()) ∧ checkPortals rules map = .ok () := by
  unfold read at h
  split at h
  · next hnone =>
    split at h
    · cases h
      refine ⟨[], by rw [hnone]; rfl, by rw [hnone]; rfl, fun hne => absurd rfl hne, ?_⟩
      -- the map without a cell has no portal to refuse
      unfold checkPortals
      split <;> rfl
    · cases h
  · obtain ⟨grid, hgrid, h⟩ := exists_of_bind_eq_ok h
    obtain ⟨_, hstarts, h⟩ := exists_of_bind_eq_ok h
    obtain ⟨_, hportals, h⟩ := exists_of_bind_eq_ok h
    cases h
    exact ⟨grid, hgrid, rfl, fun _ => hstarts, hportals⟩

/-! ## Cells in their order -/

namespace Drawn

variable {map : GridMap}

theorem cell?_eq_some_iff (h : map.Drawn) {p : Position} {cell : Cell} :
    map.cell? p = some cell ↔ cell ∈ map.grid.flatten ∧ cell.position = p := by
  constructor
  · intro hcell
    obtain ⟨row, hrow, hcol⟩ := Option.bind_eq_some_iff.mp hcell
    have hmem : cell ∈ map.grid.flatten :=
      List.mem_flatten.mpr ⟨row, List.mem_of_getElem? hrow, List.mem_of_getElem? hcol⟩
    exact ⟨hmem, h.position hcell⟩
  · rintro ⟨hmem, rfl⟩
    exact h.cell?_of_mem hmem

/-- The cells come row by row, and from left to right in a row. -/
theorem sorted (h : map.Drawn) :
    map.grid.flatten.Pairwise fun a b => a.position < b.position := by
  have hplace : ∀ (r c : Nat) (row : List Cell) (cell : Cell), map.grid[r]? = some row →
      row[c]? = some cell → cell.position = { row := r, col := c } := by
    intro r c row cell hrow hcell
    exact h.position (Option.bind_eq_some_iff.mpr ⟨row, hrow, hcell⟩)
  rw [List.pairwise_flatten]
  constructor
  · intro row hrow
    obtain ⟨r, hr⟩ := List.mem_iff_getElem?.mp hrow
    rw [List.pairwise_iff_getElem]
    intro i j hi hj hlt
    rw [hplace r i row _ hr (List.getElem?_eq_getElem hi),
      hplace r j row _ hr (List.getElem?_eq_getElem hj)]
    exact .inr ⟨rfl, hlt⟩
  · rw [List.pairwise_iff_getElem]
    intro r s hr hs hlt a ha b hb
    obtain ⟨i, hi⟩ := List.mem_iff_getElem?.mp ha
    obtain ⟨j, hj⟩ := List.mem_iff_getElem?.mp hb
    rw [hplace r i _ a (List.getElem?_eq_getElem hr) hi,
      hplace s j _ b (List.getElem?_eq_getElem hs) hj]
    exact .inl hlt

/-- The cells with a property are listed by their places. -/
theorem mem_positions_iff (h : map.Drawn) {P : Cell → Bool} {p : Position} :
    p ∈ (map.grid.flatten.filter P).map (·.position) ↔
      ∃ cell, map.cell? p = some cell ∧ P cell = true := by
  simp only [List.mem_map, List.mem_filter, h.cell?_eq_some_iff]
  constructor
  · rintro ⟨cell, ⟨hmem, hP⟩, hp⟩
    exact ⟨cell, ⟨hmem, hp⟩, hP⟩
  · rintro ⟨cell, ⟨hmem, hp⟩, hP⟩
    exact ⟨cell, ⟨hmem, hP⟩, hp⟩

end Drawn

/-! ## What is collected from the cells -/

theorem Drawn.mem_gemsOf_iff {map : GridMap} (h : map.Drawn) {p : Position} :
    p ∈ (gemsOf map.grid).members ↔ ∃ cell, map.cell? p = some cell ∧ cell.hasGem = true := by
  rw [gemsOf, OrderedSet.mem_ofList_iff, h.mem_positions_iff]

theorem Drawn.get?_switchesOf_iff {map : GridMap} (h : map.Drawn) {p : Position}
    {s : SwitchState} : (switchesOf map.grid).get? p = some s ↔
      ∃ cell, map.cell? p = some cell ∧ cell.switchState = some s := by
  -- no two cells share a position, so the value under a key is that of its only cell
  have hnodup : ((map.grid.flatten.filterMap fun cell =>
      cell.switchState.map fun s => (cell.position, s)).map Prod.fst).Nodup := by
    rw [List.Nodup, List.pairwise_map, List.pairwise_filterMap]
    refine h.sorted.imp fun {a b} hlt x hx y hy heq => ?_
    obtain ⟨_, _, rfl⟩ := Option.map_eq_some_iff.mp hx
    obtain ⟨_, _, rfl⟩ := Option.map_eq_some_iff.mp hy
    have heq : a.position = b.position := heq
    rw [heq] at hlt
    exact KeyOrder.irrefl _ hlt
  rw [switchesOf, OrderedMap.get?_ofList_iff hnodup, List.mem_filterMap]
  simp only [h.cell?_eq_some_iff, Option.map_eq_some_iff, Prod.mk.injEq]
  constructor
  · rintro ⟨cell, hmem, state, hstate, rfl, rfl⟩
    exact ⟨cell, ⟨hmem, rfl⟩, hstate⟩
  · rintro ⟨cell, ⟨hmem, rfl⟩, hstate⟩
    exact ⟨cell, hmem, s, hstate, rfl, rfl⟩

/-- No portal number is entered without a place. -/
theorem ne_nil_of_foldl_addPortal (cells : List Cell) {portals : OrderedMap Nat (List Position)}
    (h : ∀ id, portals.get? id ≠ some []) (id : Nat) :
    (cells.foldl addPortal portals).get? id ≠ some [] := by
  induction cells generalizing portals with
  | nil => exact h id
  | cons cell cells ih =>
      refine ih fun other => ?_
      unfold addPortal
      cases cell.warpId with
      | none => exact h other
      | some new =>
          dsimp only
          rw [OrderedMap.get?_insert]
          split
          · simp
          · exact h other

theorem get?_portalsOf_iff {grid : List (List Cell)} {id : Nat} {places : List Position} :
    (portalsOf grid).get? id = some places ↔
      places = portalCells id grid.flatten ∧ places ≠ [] := by
  have hlisted := getD_get?_portalsOf grid id
  -- an entry is made with its first place in it, so none stays empty
  have hne : (portalsOf grid).get? id ≠ some [] :=
    ne_nil_of_foldl_addPortal grid.flatten (by simp [OrderedMap.get?, OrderedMap.empty]) id
  cases hget : (portalsOf grid).get? id with
  | none =>
      rw [hget, Option.getD_none] at hlisted
      rw [← hlisted]
      simp
  | some found =>
      rw [hget, Option.getD_some] at hlisted
      subst hlisted
      constructor
      · intro h
        cases h
        exact ⟨rfl, fun hnil => hne (by rw [hget, hnil])⟩
      · rintro ⟨rfl, -⟩
        rfl

theorem Drawn.mem_portalCells_iff {map : GridMap} (h : map.Drawn) {id : Nat} {p : Position} :
    p ∈ portalCells id map.grid.flatten ↔
      ∃ cell, map.cell? p = some cell ∧ cell.warpId = some id := by
  rw [portalCells, h.mem_positions_iff]
  simp only [beq_iff_eq]

/-! ## Starts -/

theorem Drawn.mem_starts_iff {map : GridMap} (h : map.Drawn) {cell : Cell} :
    cell ∈ starts map.grid ↔ map.cell? cell.position = some cell ∧ cell.isStart = true := by
  rw [starts, List.mem_filter, h.cell?_eq_some_iff]
  simp

/-- The last of a list in order comes after all the others. -/
theorem eq_or_rel_of_getLast? {α : Type} {R : α → α → Prop} {as : List α} {last : α}
    (hsorted : as.Pairwise R) (hlast : as.getLast? = some last) :
    ∀ a ∈ as, a = last ∨ R a last := by
  obtain ⟨init, rfl⟩ := List.getLast?_eq_some_iff.mp hlast
  intro a ha
  rcases List.mem_append.mp ha with hinit | hend
  · exact .inr ((List.pairwise_append.mp hsorted).2.2 a hinit last (List.mem_singleton_self _))
  · exact .inl (List.mem_singleton.mp hend)

theorem Drawn.start_eq_none_iff {map : GridMap} (h : map.Drawn) :
    map.start = none ↔ ∀ p cell, map.cell? p = some cell → cell.isStart = false := by
  rw [h.start, List.getLast?_eq_none_iff, List.eq_nil_iff_forall_not_mem]
  constructor
  · intro hnone p cell hcell
    rw [← Bool.not_eq_true]
    intro harrow
    exact hnone cell (h.mem_starts_iff.mpr ⟨h.position hcell ▸ hcell, harrow⟩)
  · intro hall cell hmem
    obtain ⟨hcell, harrow⟩ := h.mem_starts_iff.mp hmem
    rw [hall _ cell hcell] at harrow
    cases harrow

theorem Drawn.last_start {map : GridMap} (h : map.Drawn) {start : Cell}
    (hstart : map.start = some start) :
    map.cell? start.position = some start ∧ start.isStart = true ∧
      ∀ p cell, map.cell? p = some cell → cell.isStart = true →
        p = start.position ∨ p < start.position := by
  rw [h.start] at hstart
  obtain ⟨hcell, harrow⟩ := h.mem_starts_iff.mp (List.mem_of_getLast? hstart)
  refine ⟨hcell, harrow, fun p cell hcell' harrow' => ?_⟩
  have hposition := h.position hcell'
  have hmem : cell ∈ starts map.grid := h.mem_starts_iff.mpr ⟨hposition.symm ▸ hcell', harrow'⟩
  rw [← hposition]
  exact (eq_or_rel_of_getLast? (h.sorted.filter _) hstart cell hmem).imp_left (congrArg _)

theorem Drawn.existsUnique_start {map : GridMap} (h : map.Drawn) {start : Cell}
    (hstarts : starts map.grid = [start]) :
    ∃! p, ∃ cell, map.cell? p = some cell ∧ cell.isStart = true := by
  have hmem : start ∈ starts map.grid := by rw [hstarts]; exact List.mem_singleton_self _
  refine ⟨start.position, ⟨start, h.mem_starts_iff.mp hmem⟩, ?_⟩
  rintro p ⟨cell, hcell, harrow⟩
  have hposition := h.position hcell
  have hother : cell ∈ starts map.grid := h.mem_starts_iff.mpr ⟨hposition.symm ▸ hcell, harrow⟩
  rw [hstarts, List.mem_singleton] at hother
  rw [← hposition, hother]

/-! ## Portals -/

/-- Of two different places each is the other end for the other. -/
theorem exists_partners {map : GridMap} {id : Nat} {places : List Position}
    (hplaces : map.portals.get? id = some places) (hsorted : places.Pairwise (· < ·))
    (hlength : places.length = 2) :
    ∃ p q, places = [p, q] ∧ map.partner? id p = some q ∧ map.partner? id q = some p := by
  obtain ⟨p, q, rfl⟩ := List.length_eq_two.mp hlength
  have hlt : p < q := by simpa using hsorted
  have hne : p ≠ q := fun heq => KeyOrder.irrefl q (heq ▸ hlt)
  refine ⟨p, q, rfl, ?_, ?_⟩
  · simp [partner?, hplaces, hne.symm]
  · simp [partner?, hplaces, hne]

/-! ## The whole map -/

/-- Everything that a map says about the text that it was read from, and about itself. -/
structure Depicts (rules : MapRules) (text : String) (map : GridMap) : Prop where
  rows : map.grid.length = map.rows
  lines : map.rows = (rowLines text.toList).length
  columns : ∀ row ∈ map.grid, row.length = map.columns
  cells : ∀ p cell, map.cell? p = some cell → cell.row = p.row ∧ cell.col = p.col ∧
    ∃ line, (rowLines text.toList)[p.row]? = some line ∧
      Legend.Means (String.ofList ((cut line)[p.col]?.getD [])) cell
  gems : ∀ p, p ∈ map.gems.members ↔ ∃ cell, map.cell? p = some cell ∧ cell.hasGem = true
  switches : ∀ p s, map.switches.get? p = some s ↔
    ∃ cell, map.cell? p = some cell ∧ cell.switchState = some s
  portals : ∀ id, (∃ places, map.portals.get? id = some places) ↔
    ∃ p cell, map.cell? p = some cell ∧ cell.warpId = some id
  places : ∀ id places, map.portals.get? id = some places → places.Pairwise (· < ·) ∧
    ∀ p, p ∈ places ↔ ∃ cell, map.cell? p = some cell ∧ cell.warpId = some id
  noStart : map.start = none ↔ ∀ p cell, map.cell? p = some cell → cell.isStart = false
  lastStart : ∀ start, map.start = some start →
    map.cell? start.position = some start ∧ start.isStart = true ∧
      ∀ p cell, map.cell? p = some cell → cell.isStart = true →
        p = start.position ∨ p < start.position
  oneStart : rules.allowMissingStart = false → map.grid ≠ [] →
    ∃! p, ∃ cell, map.cell? p = some cell ∧ cell.isStart = true
  paired : rules.allowUnpairedPortals = false → ∀ id places,
    map.portals.get? id = some places →
      ∃ p q, places = [p, q] ∧ map.partner? id p = some q ∧ map.partner? id q = some p

/-- **Maps that have been read show their text.** -/
theorem depicts_of_read {rules : MapRules} {text : String} {map : GridMap}
    (h : read rules text = .ok map) : map.Depicts rules text := by
  have hdrawn := drawn_of_read h
  obtain ⟨grid, hgrid, hmap, hstarts, hportals⟩ := exists_grid_of_read h
  have hcells : map.grid = grid := by rw [hmap]; rfl
  have hgems : map.gems = gemsOf map.grid := by rw [hmap]; rfl
  have hswitches : map.switches = switchesOf map.grid := by rw [hmap]; rfl
  -- the list of a portal has its cells in the order of the flattened grid
  have hplaces : ∀ id places, map.portals.get? id = some places →
      places.Pairwise (· < ·) ∧
        ∀ p, p ∈ places ↔ ∃ cell, map.cell? p = some cell ∧ cell.warpId = some id := by
    intro id places hget
    rw [hdrawn.portals] at hget
    obtain ⟨rfl, -⟩ := get?_portalsOf_iff.mp hget
    refine ⟨?_, fun p => hdrawn.mem_portalCells_iff⟩
    exact List.pairwise_map.mpr (hdrawn.sorted.filter _)
  refine
    { rows := hdrawn.rows
      lines := ?_
      columns := hdrawn.columns
      cells := fun p cell hcell => ?_
      gems := fun p => by rw [hgems, hdrawn.mem_gemsOf_iff]
      switches := fun p s => by rw [hswitches, hdrawn.get?_switchesOf_iff]
      portals := fun id => ?_
      places := hplaces
      noStart := hdrawn.start_eq_none_iff
      lastStart := fun start => hdrawn.last_start
      oneStart := fun hrules hne => ?_
      paired := fun hrules id places hget => ?_ }
  · rw [← hdrawn.rows, hcells, length_of_mapM_eq_ok hgrid, List.length_zipIdx]
    simp [tokenRows]
  · -- the token at a cell comes from the line of its row, cut at the same column
    have hposition := hdrawn.position hcell
    obtain ⟨row, hrow, hcol⟩ := Option.bind_eq_some_iff.mp hcell
    rw [hcells] at hrow
    obtain ⟨tokens, token, htokens, htoken, hok⟩ := exists_token_of_readRows hgrid hrow hcol
    obtain ⟨line, hline, rfl⟩ := exists_line_of_tokenRows htokens htoken
    exact ⟨congrArg Position.row hposition, congrArg Position.col hposition, line, hline,
      Legend.means_of_ofToken hok⟩
  · simp only [hdrawn.portals, get?_portalsOf_iff, ← hdrawn.mem_portalCells_iff,
      exists_eq_left]
    refine ⟨List.exists_mem_of_ne_nil _, ?_⟩
    rintro ⟨p, hp⟩
    exact List.ne_nil_of_mem hp
  · obtain ⟨start, hstart⟩ := exists_start_of_checkStarts hrules (hstarts (hcells ▸ hne))
    rw [← hcells] at hstart
    exact hdrawn.existsUnique_start hstart
  · have hlength := length_of_checkPortals hrules hportals hget
    exact exists_partners hget (hplaces id places hget).1 hlength

/-- A short row, a blank line, and a portal number that is written in two ways. -/
theorem depicts_of_read_ragged :
    let text := "\uFEFF→\tW1\t●\r\n \t\n♦\tW01"
    ∃ map, read {} text = .ok map ∧ map.Depicts {} text ∧
      map.grid.map (·.map (·.token)) = [["→", "W1", "●"], ["♦", "W01", ""]] ∧
      map.gems.members = [⟨1, 0⟩] ∧ map.portals.entries = [(1, [⟨0, 1⟩, ⟨1, 1⟩])] := by
  intro text
  have heval : ((read {} text).toOption.map fun map =>
      (map.grid.map (·.map (·.token)), map.gems.members, map.portals.entries)) =
      some ([["→", "W1", "●"], ["♦", "W01", ""]], [⟨1, 0⟩], [(1, [⟨0, 1⟩, ⟨1, 1⟩])]) := by
    decide +kernel
  obtain ⟨map, hmap, heval⟩ := Option.map_eq_some_iff.mp heval
  simp only [Prod.mk.injEq] at heval
  replace hmap := eq_ok_of_toOption hmap
  exact ⟨map, hmap, depicts_of_read hmap, heval⟩

end GridMap

end GemGrid
