import GemGrid.Proofs.Grid.Contents

/-!
# Which texts are maps

What becomes of a map text, told by the tokens that are written in it.

* `Refused rules text d` says which texts are refused, and with which diagnostic.  It has one case
  for each error, and each case excludes the errors that are tried before it.
* `read_exact`: reading fails in these cases only, and what the rules allow does not change the map.

The reader checks a rectangle of cells, and the text has lines of all lengths.  What a row is
filled up with is no arrow and no portal, so that neither the first token that cannot be read
(`errorOf?_readRows`) nor a number of cells (`countP_flatten`) depends on it.
-/

namespace GemGrid

/-! ## Tokens -/

namespace Legend

/-- The number of a portal token, however large it is. -/
def portalNumber? : List Char → Option Nat
  | [] => none
  | c :: digits => if c = portalMark then Text.digits? digits else none

/-- Whether a token is a portal whose number is beyond 32 bits. -/
def outOfRange (token : List Char) : Bool :=
  (portalNumber? token).any (Text.max32 < ·)

/-- Whether a token is an arrow. -/
def isArrow (token : List Char) : Bool :=
  Direction.all.any fun d => d.arrow == String.ofList token

theorem portalNumber?_eq_some_iff {token : List Char} {id : Nat} :
    portalNumber? token = some id ↔
      ∃ digits, token = portalMark :: digits ∧ Text.digits? digits = some id := by
  cases token with
  | nil => simp [portalNumber?]
  | cons c rest =>
      rw [portalNumber?]
      constructor
      · intro h
        split at h
        · next hmark => exact ⟨rest, by rw [hmark], h⟩
        · cases h
      · rintro ⟨digits, hsame, hdigits⟩
        cases hsame
        rwa [if_pos rfl]

theorem isArrow_iff {token : List Char} :
    isArrow token = true ↔ ∃ d : Direction, String.ofList token = d.arrow := by
  rw [isArrow, List.any_eq_true]
  constructor
  · rintro ⟨d, -, hd⟩
    exact ⟨d, (eq_of_beq hd).symm⟩
  · rintro ⟨d, hd⟩
    exact ⟨d, by cases d <;> decide, by rw [hd]; exact beq_self_eq_true _⟩

variable {token : List Char} {row col : Nat} {cell : Cell}

theorem isStart_of_ofToken (h : Cell.ofToken (String.ofList token) row col = .ok cell) :
    cell.isStart = isArrow token := by
  rw [Bool.eq_iff_iff, isArrow_iff]
  exact (means_of_ofToken h).start

theorem warpId_of_ofToken (h : Cell.ofToken (String.ofList token) row col = .ok cell) :
    cell.warpId = portalNumber? token := by
  ext id
  rw [portalNumber?_eq_some_iff, (means_of_ofToken h).portal, String.toList_ofList]

/-- Only a portal can be refused, and only for its number. -/
theorem exists_digits_of_ofToken_error {token token' : String}
    (h : Cell.ofToken token row col = .error token') :
    token' = token ∧ ∃ digits, token.toList = portalMark :: digits ∧
      (Text.digits? digits).isSome = true ∧ Text.digitsUpTo? Text.max32 digits = none := by
  unfold Cell.ofToken at h
  dsimp only at h
  repeat' split at h
  all_goals cases h
  next _ digits hdigits _ hnone =>
    obtain ⟨htoken, hsome⟩ := portalDigits?_eq_some_iff.mp hdigits
    exact ⟨rfl, digits, htoken, hsome, hnone⟩

/-- A token is refused if it is a portal with too large a number. -/
theorem errorOf?_ofToken (token : List Char) (row col : Nat) :
    errorOf? (Cell.ofToken (String.ofList token) row col) =
      (Option.guard outOfRange token).map String.ofList := by
  -- only the value of a portal can be refused, and only when it is out of range
  cases h : Cell.ofToken (String.ofList token) row col with
  | ok cell =>
      have hfits : outOfRange token = false := by
        rw [outOfRange, ← warpId_of_ofToken h, Option.any_eq_false]
        intro id hid
        simpa using Cell.warpId_le_of_ofToken h hid
      simp [errorOf?, Option.guard, hfits]
  | error token' =>
      obtain ⟨rfl, digits, htoken, hsome, hnone⟩ := exists_digits_of_ofToken_error h
      obtain ⟨id, hid⟩ := Option.isSome_iff_exists.mp hsome
      have hnumber : portalNumber? token = some id :=
        portalNumber?_eq_some_iff.mpr ⟨digits, by simpa using htoken, hid⟩
      have hlarge : outOfRange token = true := by
        rw [Text.digitsUpTo?, hid, Option.filter_some] at hnone
        simpa [outOfRange, hnumber] using hnone
      simp [errorOf?, Option.guard, hlarge]

end Legend

namespace GridMap

/-- The tokens of a map text as they are written, row by row. -/
def tokens (text : List Char) : List (List Char) :=
  (rowLines text).flatMap cut

/-- Filling up the rows adds nothing that has a property which empty tokens do not have. -/
theorem filter_flatten_tokenRows {Q : List Char → Bool} (hblank : Q [] = false)
    (text : List Char) : (tokenRows text).flatten.filter Q = (tokens text).filter Q := by
  have hpad : ∀ w row, (pad w row).filter Q = row.filter Q := by
    intro w row
    rw [pad, List.filter_append, List.filter_replicate_of_neg (by simp [hblank]), List.append_nil]
  rw [tokenRows, tokens, List.flatMap_def, List.filter_flatten, List.filter_flatten, List.map_map]
  exact congrArg List.flatten (List.map_congr_left fun row _ => hpad _ row)

theorem tokenRows_eq_nil_iff {text : List Char} : tokenRows text = [] ↔ rowLines text = [] := by
  simp [tokenRows]

/-! ## The first token that cannot be read -/

theorem readRow_eq (r : Nat) (row : List (List Char)) :
    readRow r row = row.zipIdx.mapM fun place =>
      (Cell.ofToken (String.ofList place.1) r place.2).mapError .portalRange := by
  refine congrArg (List.mapM · row.zipIdx) (funext fun place => ?_)
  dsimp only
  cases Cell.ofToken (String.ofList place.1) r place.2 <;> rfl

/-- A row fails with its first token that is out of range. -/
theorem errorOf?_readRow (r : Nat) (row : List (List Char)) :
    errorOf? (readRow r row) =
      (row.find? Legend.outOfRange).map fun token => .portalRange (String.ofList token) := by
  rw [readRow_eq, errorOf?_mapM, List.find?_eq_findSome?_guard, List.map_findSome?]
  conv_rhs => rw [← List.zipIdx_map_fst 0 row, List.findSome?_map]
  refine congrArg (List.findSome? · row.zipIdx) (funext fun place => ?_)
  rw [errorOf?_mapError, Legend.errorOf?_ofToken, Option.map_map]
  rfl

/-- Some rows fail with the first token that is out of range, row by row. -/
theorem errorOf?_readRows (rows : List (List (List Char))) :
    errorOf? (readRows rows) =
      (rows.flatten.find? Legend.outOfRange).map fun token =>
        .portalRange (String.ofList token) := by
  rw [readRows, errorOf?_mapM, List.find?_flatten, List.map_findSome?]
  conv_rhs => rw [← List.zipIdx_map_fst 0 rows, List.findSome?_map]
  exact congrArg (List.findSome? · rows.zipIdx) (funext fun (row, r) => errorOf?_readRow r row)

theorem errorOf?_readRows_tokenRows (text : List Char) :
    errorOf? (readRows (tokenRows text)) =
      ((tokens text).find? Legend.outOfRange).map fun token =>
        .portalRange (String.ofList token) := by
  rw [errorOf?_readRows, ← List.head?_filter, ← List.head?_filter,
    filter_flatten_tokenRows (by decide)]

/-! ## Numbers of cells -/

/-- What is read off the cells can be read off the tokens, row by row. -/
theorem map_map_of_readRows {γ : Type} {g : Cell → γ} {h : List Char → γ}
    (hcell : ∀ token r c cell, Cell.ofToken (String.ofList token) r c = .ok cell →
      g cell = h token) {rows : List (List (List Char))} {grid : List (List Cell)}
    (hgrid : readRows rows = .ok grid) : grid.map (·.map g) = rows.map (·.map h) := by
  have hrow : ∀ r row cells, readRow r row = .ok cells → cells.map g = row.map h := by
    intro r row cells hcells
    rw [readRow_eq] at hcells
    conv_rhs => rw [← List.zipIdx_map_fst 0 row, List.map_map]
    refine map_of_mapM_eq_ok (fun place cell hread => ?_) hcells
    exact hcell place.1 r place.2 cell (eq_ok_of_mapError hread)
  conv_rhs => rw [← List.zipIdx_map_fst 0 rows, List.map_map]
  exact map_of_mapM_eq_ok (fun place cells hread => hrow place.2 place.1 cells hread) hgrid

theorem map_flatten_of_readRows {γ : Type} {g : Cell → γ} {h : List Char → γ}
    (hcell : ∀ token r c cell, Cell.ofToken (String.ofList token) r c = .ok cell →
      g cell = h token) {rows : List (List (List Char))} {grid : List (List Cell)}
    (hgrid : readRows rows = .ok grid) : grid.flatten.map g = rows.flatten.map h := by
  rw [List.map_flatten, List.map_flatten, map_map_of_readRows hcell hgrid]

/-- The cells with a property are as many as the tokens that give it to them. -/
theorem countP_flatten {P : Cell → Bool} {Q : List Char → Bool}
    (hcell : ∀ token r c cell, Cell.ofToken (String.ofList token) r c = .ok cell →
      P cell = Q token) (hblank : Q [] = false) {text : List Char} {grid : List (List Cell)}
    (hgrid : readRows (tokenRows text) = .ok grid) :
    grid.flatten.countP P = (tokens text).countP Q := by
  calc grid.flatten.countP P
      = (grid.flatten.map P).countP id := by rw [List.countP_map, Function.id_comp]
    _ = ((tokenRows text).flatten.map Q).countP id := by
        rw [map_flatten_of_readRows hcell hgrid]
    _ = (tokenRows text).flatten.countP Q := by rw [List.countP_map, Function.id_comp]
    _ = (tokens text).countP Q := by
        rw [List.countP_eq_length_filter, filter_flatten_tokenRows hblank,
          List.countP_eq_length_filter]

/-- The number of arrows among some tokens. -/
def arrowCount (tokens : List (List Char)) : Nat :=
  tokens.countP Legend.isArrow

/-- The number of portals among some tokens that have the given number. -/
def portalCount (id : Nat) (tokens : List (List Char)) : Nat :=
  tokens.countP fun token => Legend.portalNumber? token == some id

theorem length_starts {text : List Char} {grid : List (List Cell)}
    (hgrid : readRows (tokenRows text) = .ok grid) :
    (starts grid).length = arrowCount (tokens text) := by
  rw [starts, ← List.countP_eq_length_filter]
  exact countP_flatten (fun _ _ _ _ => Legend.isStart_of_ofToken) (by decide) hgrid

theorem length_portalCells (id : Nat) {text : List Char} {grid : List (List Cell)}
    (hgrid : readRows (tokenRows text) = .ok grid) :
    (portalCells id grid.flatten).length = portalCount id (tokens text) := by
  rw [portalCells, List.length_map, ← List.countP_eq_length_filter]
  refine countP_flatten (fun token r c cell h => ?_) rfl hgrid
  rw [Legend.warpId_of_ofToken h]

/-! ## The rules -/

/-- There are portals with the given number, but not two. -/
def Unpaired (tokens : List (List Char)) (id : Nat) : Prop :=
  portalCount id tokens ≠ 0 ∧ portalCount id tokens ≠ 2

section

variable {rules : MapRules} {text : List Char} {grid : List (List Cell)}

theorem checkStarts_eq_ok_iff (hgrid : readRows (tokenRows text) = .ok grid) :
    checkStarts rules grid = .ok () ↔
      rules.allowMissingStart = true ∨ arrowCount (tokens text) = 1 := by
  rw [checkStarts, length_starts hgrid]
  generalize arrowCount (tokens text) = n
  cases rules.allowMissingStart with
  | true => simp
  | false => rcases n with _ | _ | n <;> simp [eq_comm]

theorem checkStarts_eq_error_iff (hgrid : readRows (tokenRows text) = .ok grid) {e : MapError} :
    checkStarts rules grid = .error e ↔ rules.allowMissingStart = false ∧
      (arrowCount (tokens text) = 0 ∧ e = .noStart ∨
        1 < arrowCount (tokens text) ∧ e = .manyStarts (arrowCount (tokens text))) := by
  rw [checkStarts, length_starts hgrid]
  generalize arrowCount (tokens text) = n
  cases rules.allowMissingStart with
  | true => simp
  | false => rcases n with _ | _ | n <;> simp [eq_comm]

/-- The first portal of a grid that breaks the rule has the least number of those of the text. -/
theorem find?_portalsOf_eq_some_iff (hgrid : readRows (tokenRows text) = .ok grid) {id : Nat}
    {places : List Position} :
    (portalsOf grid).entries.find? (fun e => e.2.length != 2) = some (id, places) ↔
      places = portalCells id grid.flatten ∧ Unpaired (tokens text) id ∧
        ∀ other, Unpaired (tokens text) other → id ≤ other := by
  -- the entries are in the order of their keys, so the first unpaired one has the least number
  have hfind := OrderedMap.find?_entries_eq_some_iff (m := portalsOf grid)
    (P := fun places => places.length != 2) (k := id) (v := places)
  rw [hfind]
  simp only [get?_portalsOf_iff, Unpaired, ← length_portalCells _ hgrid, bne_iff_ne,
    List.length_eq_zero_iff, ne_eq]
  constructor
  · rintro ⟨⟨rfl, hne⟩, hlength, hleast⟩
    refine ⟨rfl, ⟨hne, hlength⟩, fun other hother => ?_⟩
    exact Nat.not_lt.mp (hleast other _ ⟨rfl, hother.1⟩ hother.2)
  · rintro ⟨rfl, ⟨hne, hlength⟩, hleast⟩
    refine ⟨⟨rfl, hne⟩, hlength, ?_⟩
    rintro other _ ⟨rfl, hother⟩ hlength'
    exact Nat.not_lt.mpr (hleast other ⟨hother, hlength'⟩)

theorem checkPortals_eq_error_iff (hgrid : readRows (tokenRows text) = .ok grid) (w : Nat)
    {e : MapError} :
    checkPortals rules (ofCells w grid) = .error e ↔ rules.allowUnpairedPortals = false ∧
      ∃ id, Unpaired (tokens text) id ∧ (∀ other, Unpaired (tokens text) other → id ≤ other) ∧
        e = .unpairedPortal id (portalCount id (tokens text)) := by
  have hportals : (ofCells w grid).portals = portalsOf grid := rfl
  rw [checkPortals, hportals]
  cases rules.allowUnpairedPortals with
  | true => simp
  | false =>
      simp only [Bool.false_eq_true, if_false, true_and]
      constructor
      · intro h
        split at h
        · next id places hfind =>
          cases h
          obtain ⟨rfl, hunpaired, hleast⟩ := (find?_portalsOf_eq_some_iff hgrid).mp hfind
          exact ⟨id, hunpaired, hleast, by rw [length_portalCells id hgrid]⟩
        · cases h
      · rintro ⟨id, hunpaired, hleast, rfl⟩
        rw [(find?_portalsOf_eq_some_iff hgrid).mpr ⟨rfl, hunpaired, hleast⟩]
        rw [← length_portalCells id hgrid]

end

/-! ## Verdicts -/

/-- The text is refused with a diagnostic.  The errors are tried in the order in which they stand
here. -/
inductive Refused (rules : MapRules) (text : String) : Diagnostic → Prop where
  | empty : rowLines text.toList = [] → rules.allowEmpty = false →
      Refused rules text (.plain 100 "the map is empty")
  | portalRange {token : List Char} :
      (tokens text.toList).find? Legend.outOfRange = some token →
      Refused rules text (.plain 104 s!"warp portal id is out of range: {String.ofList token}")
  | noStart : rowLines text.toList ≠ [] →
      (∀ token ∈ tokens text.toList, Legend.outOfRange token = false) →
      rules.allowMissingStart = false → arrowCount (tokens text.toList) = 0 →
      Refused rules text (.plain 101 "the map needs a start arrow (one of ↑ ↓ ← →)")
  | manyStarts {count : Nat} :
      (∀ token ∈ tokens text.toList, Legend.outOfRange token = false) →
      rules.allowMissingStart = false → count = arrowCount (tokens text.toList) → 1 < count →
      Refused rules text
        (.plain 103 s!"the map must have exactly one start arrow (found {count})")
  | unpairedPortal {id count : Nat} :
      (∀ token ∈ tokens text.toList, Legend.outOfRange token = false) →
      rules.allowMissingStart = true ∨ arrowCount (tokens text.toList) = 1 →
      rules.allowUnpairedPortals = false →
      Unpaired (tokens text.toList) id →
      (∀ other, Unpaired (tokens text.toList) other → id ≤ other) →
      count = portalCount id (tokens text.toList) →
      Refused rules text
        (.plain 102 s!"warp portal W{id} must appear in exactly 2 cells (found {count})")

theorem read_of_rowLines_eq_nil {text : String} (h : rowLines text.toList = [])
    (rules : MapRules) :
    read rules text = if rules.allowEmpty then .ok empty else .error .empty := by
  rw [read, tokenRows_eq_nil_iff.mpr h]

/-- Where there are rows, reading fails with the first of its steps that does. -/
theorem read_eq_error_iff {rules : MapRules} {text : String} (hrows : rowLines text.toList ≠ [])
    {e : MapError} : read rules text = .error e ↔
      readRows (tokenRows text.toList) = .error e ∨
      ∃ grid, readRows (tokenRows text.toList) = .ok grid ∧
        (checkStarts rules grid = .error e ∨ checkStarts rules grid = .ok () ∧
          checkPortals rules (ofCells (width (tokenRows text.toList)) grid) = .error e) := by
  unfold read
  split
  · next hnone => exact absurd (tokenRows_eq_nil_iff.mp hnone) hrows
  · simp [bind_eq_error_iff, pure, Except.pure, Unique.exists_iff]

theorem exists_grid_iff {text : List Char} :
    (∃ grid, readRows (tokenRows text) = .ok grid) ↔
      ∀ token ∈ tokens text, Legend.outOfRange token = false := by
  rw [← errorOf?_eq_none_iff, errorOf?_readRows_tokenRows, Option.map_eq_none_iff,
    List.find?_eq_none]
  simp

theorem readRows_eq_error_iff {text : List Char} {e : MapError} :
    readRows (tokenRows text) = .error e ↔
      ∃ token, (tokens text).find? Legend.outOfRange = some token ∧
        .portalRange (String.ofList token) = e := by
  rw [← errorOf?_eq_some_iff, errorOf?_readRows_tokenRows, Option.map_eq_some_iff]

/-- Every error is one of the cases. -/
theorem refused_of_read {rules : MapRules} {text : String} {e : MapError}
    (h : read rules text = .error e) : Refused rules text e.toDiagnostic := by
  -- in the order of the reader: no line, a portal out of range, the starts, the portals
  by_cases hrows : rowLines text.toList = []
  · rw [read_of_rowLines_eq_nil hrows] at h
    split at h
    · cases h
    · next hrule =>
      cases h
      exact .empty hrows (by simpa using hrule)
  rcases (read_eq_error_iff hrows).mp h with hread | ⟨grid, hgrid, hrules⟩
  · obtain ⟨token, htoken, rfl⟩ := readRows_eq_error_iff.mp hread
    exact .portalRange htoken
  have hfits := exists_grid_iff.mp ⟨grid, hgrid⟩
  rcases hrules with hstarts | ⟨hstarts, hportals⟩
  · obtain ⟨hrule, ⟨hcount, rfl⟩ | ⟨hcount, rfl⟩⟩ := (checkStarts_eq_error_iff hgrid).mp hstarts
    · exact .noStart hrows hfits hrule hcount
    · exact .manyStarts hfits hrule rfl hcount
  · obtain ⟨hrule, id, hunpaired, hleast, rfl⟩ := (checkPortals_eq_error_iff hgrid _).mp hportals
    have hstart := (checkStarts_eq_ok_iff hgrid).mp hstarts
    exact .unpairedPortal hfits hstart hrule hunpaired hleast rfl

theorem rowLines_ne_nil {text token : List Char} (h : token ∈ tokens text) :
    rowLines text ≠ [] := by
  intro hnil
  rw [tokens, hnil] at h
  cases h

theorem rowLines_ne_nil_of_countP {text : List Char} {Q : List Char → Bool}
    (h : (tokens text).countP Q ≠ 0) : rowLines text ≠ [] := by
  obtain ⟨token, hmem, -⟩ := List.countP_pos_iff.mp (Nat.pos_of_ne_zero h)
  exact rowLines_ne_nil hmem

/-- In every case reading fails with the error of the case. -/
theorem read_of_refused {rules : MapRules} {text : String} {d : Diagnostic}
    (h : Refused rules text d) : ∃ e, read rules text = .error e ∧ e.toDiagnostic = d := by
  cases h with
  | empty hrows hrule =>
      refine ⟨.empty, ?_, rfl⟩
      rw [read_of_rowLines_eq_nil hrows, hrule, if_neg Bool.false_ne_true]
  | @portalRange token htoken =>
      have hrows := rowLines_ne_nil (List.mem_of_find?_eq_some htoken)
      have hread := readRows_eq_error_iff.mpr ⟨token, htoken, rfl⟩
      exact ⟨_, (read_eq_error_iff hrows).mpr (.inl hread), rfl⟩
  | noStart hrows hfits hrule hcount =>
      obtain ⟨grid, hgrid⟩ := exists_grid_iff.mpr hfits
      have hstarts := (checkStarts_eq_error_iff hgrid).mpr ⟨hrule, .inl ⟨hcount, rfl⟩⟩
      exact ⟨_, (read_eq_error_iff hrows).mpr (.inr ⟨grid, hgrid, .inl hstarts⟩), rfl⟩
  | manyStarts hfits hrule hcount hlt =>
      subst hcount
      have hrows := rowLines_ne_nil_of_countP (Nat.ne_of_gt (Nat.lt_of_succ_lt hlt))
      obtain ⟨grid, hgrid⟩ := exists_grid_iff.mpr hfits
      have hstarts := (checkStarts_eq_error_iff hgrid).mpr ⟨hrule, .inr ⟨hlt, rfl⟩⟩
      exact ⟨_, (read_eq_error_iff hrows).mpr (.inr ⟨grid, hgrid, .inl hstarts⟩), rfl⟩
  | @unpairedPortal id count hfits hstart hrule hunpaired hleast hcount =>
      subst hcount
      have hrows := rowLines_ne_nil_of_countP hunpaired.1
      obtain ⟨grid, hgrid⟩ := exists_grid_iff.mpr hfits
      have hstarts := (checkStarts_eq_ok_iff hgrid).mpr hstart
      have hportals := (checkPortals_eq_error_iff hgrid (width (tokenRows text.toList))).mpr
        ⟨hrule, id, hunpaired, hleast, rfl⟩
      exact ⟨_, (read_eq_error_iff hrows).mpr (.inr ⟨grid, hgrid, .inr ⟨hstarts, hportals⟩⟩), rfl⟩

/-- The map of a text is the same under all rules that allow it. -/
theorem read_unique {rules rules' : MapRules} {text : String} {map map' : GridMap}
    (h : read rules text = .ok map) (h' : read rules' text = .ok map') : map = map' := by
  obtain ⟨grid, hgrid, rfl, -⟩ := exists_grid_of_read h
  obtain ⟨grid', hgrid', rfl, -⟩ := exists_grid_of_read h'
  rw [hgrid] at hgrid'
  cases hgrid'
  rfl

/-- **Which texts are maps.**  A text is refused in the cases of `Refused` only, each with its own
diagnostic, and is a map otherwise.  A text without rows, where it is allowed, is the map without
cells.  Rules decide whether there is a map, not which one. -/
theorem read_exact (rules : MapRules) (text : String) :
    (∀ d, (read rules text).mapError MapError.toDiagnostic = .error d ↔ Refused rules text d) ∧
      ((∃ map, read rules text = .ok map) ↔ ∀ d, ¬ Refused rules text d) ∧
      (rowLines text.toList = [] → rules.allowEmpty = true → read rules text = .ok empty) ∧
      ∀ rules' map map', read rules text = .ok map → read rules' text = .ok map' → map = map' := by
  refine ⟨fun d => ?_, ?_, fun hrows hrule => ?_, fun _ _ _ => read_unique⟩
  · rw [mapError_eq_error_iff]
    refine ⟨?_, read_of_refused⟩
    rintro ⟨e, he, rfl⟩
    exact refused_of_read he
  · constructor
    · rintro ⟨map, hmap⟩ d hd
      obtain ⟨e, he, -⟩ := read_of_refused hd
      rw [hmap] at he
      cases he
    · intro hnone
      cases h : read rules text with
      | ok map => exact ⟨map, rfl⟩
      | error e => exact absurd (refused_of_read h) (hnone _)
  · rw [read_of_rowLines_eq_nil hrows, if_pos hrule]

/-- A number beyond 32 bits comes first, whatever the rules; of two portals that are written in
several ways, only the one with three cells is refused. -/
theorem read_exact_ragged :
    let large := "W7\t\r\n \t\n\tW9\t\tW0004294967296\tW7"
    let ragged := "\uFEFFW03\t\tW007\r\r\n↑\tW3\tW7\t \n \n\tW3"
    let range : Diagnostic := .plain 104 "warp portal id is out of range: W0004294967296"
    Refused {} large range ∧ Refused .preview large range ∧
      Refused {} ragged
        (.plain 102 "warp portal W3 must appear in exactly 2 cells (found 3)") ∧
      ∃ map, read .preview ragged = .ok map ∧ ∀ d, ¬ Refused .preview ragged d := by
  intro large ragged range
  have hrefused : ∀ rules text d,
      errorOf? ((read rules text).mapError MapError.toDiagnostic) = some d →
        Refused rules text d :=
    fun rules text d h => ((read_exact rules text).1 d).mp (errorOf?_eq_some_iff.mp h)
  have hmap : ∃ map, read .preview ragged = .ok map :=
    errorOf?_eq_none_iff.mp (by decide +kernel)
  refine ⟨hrefused _ _ _ (by decide +kernel), hrefused _ _ _ (by decide +kernel),
    hrefused _ _ _ (by decide +kernel), ?_⟩
  obtain ⟨map, hmap⟩ := hmap
  exact ⟨map, hmap, (read_exact _ _).2.1.mp ⟨map, hmap⟩⟩

end GridMap

end GemGrid
