import GemGrid.Proofs.Grid.Contents
import GemGrid.Proofs.Script.Comments
import GemGrid.Proofs.Script.Programs
import GemGrid.Proofs.Wire.Grid
import GemGrid.Proofs.Wire.Script

/-!
# What has been read can be exchanged

Numbers have a width in the exchange form.  Those of a map or a program that comes from a text keep
to it, so such a map or program survives its exchange form whatever else is in it.

* Places of a map are inside its grid, which has no more rows and columns than the text has
  characters and one; portal numbers are bounded by what reads them (`GridMap.fits_of_read`).
* The lines of a program are those of its tokens, which are numbered lines of the text; the counts
  of loops are bounded by what reads them, and the count of commands is cut off
  (`Script.fits_of_read`).
-/

namespace GemGrid

/-! ## Maps -/

namespace GridMap

theorem length_rowLines_le (text : List Char) : (rowLines text).length ≤ text.length + 1 := by
  have hstart := (List.dropWhile_suffix (l := text) (· == '\uFEFF')).length_le
  have hpieces := Text.length_pieces_le (fun c => c == '\r' || c == '\n')
    (text.dropWhile (· == '\uFEFF'))
  calc (rowLines text).length
      ≤ _ := List.length_filter_le ..
    _ ≤ (text.dropWhile (· == '\uFEFF')).length + 1 := by rwa [List.length_map]
    _ ≤ text.length + 1 := by omega

theorem length_le_of_mem_rowLines {text line : List Char} (h : line ∈ rowLines text) :
    line.length ≤ text.length := by
  obtain ⟨piece, hpiece, rfl⟩ := List.mem_map.mp (List.mem_filter.mp h).1
  calc (Text.trimEnd piece).length
      ≤ piece.length := Text.length_trimEnd_le piece
    _ ≤ (text.dropWhile (· == '\uFEFF')).length := Text.length_le_of_mem_pieces hpiece
    _ ≤ text.length := (List.dropWhile_suffix _).length_le

theorem length_tokenRows_le (text : List Char) : (tokenRows text).length ≤ text.length + 1 := by
  rw [tokenRows, List.length_map, List.length_map]
  exact length_rowLines_le text

theorem width_tokenRows_le (text : List Char) : width (tokenRows text) ≤ text.length + 1 := by
  have hcut : width ((rowLines text).map cut) ≤ text.length + 1 := by
    rw [width_le_iff]
    refine List.forall_mem_map.mpr fun line hline => ?_
    have hpieces := Text.length_pieces_le (· == '\t') line
    have hlength := length_le_of_mem_rowLines hline
    rw [cut]
    omega
  rw [width_le_iff]
  intro row hrow
  obtain ⟨line, hline, rfl⟩ := List.mem_map.mp hrow
  have hle := width_le_iff.mp (Nat.le_refl _) line hline
  rw [pad, List.length_append, List.length_replicate, Nat.add_sub_cancel' hle]
  exact hcut

theorem size_le_of_read {rules : MapRules} {text : String} {map : GridMap}
    (h : read rules text = .ok map) :
    map.rows ≤ text.length + 1 ∧ map.columns ≤ text.length + 1 := by
  obtain ⟨grid, hgrid, rfl, _, _⟩ := exists_grid_of_read h
  rw [← String.length_toList]
  refine ⟨?_, width_tokenRows_le text.toList⟩
  show grid.length ≤ _
  rw [length_of_mapM_eq_ok hgrid, List.length_zipIdx]
  exact length_tokenRows_le text.toList

/-- The cells of a grid that is not too large fit, and so do their places. -/
theorem Drawn.cell_fits {map : GridMap} (hmap : map.Drawn) (hrows : map.rows ≤ Text.max64)
    (hcolumns : map.columns ≤ Text.max64) {p : Position} {cell : Cell}
    (hcell : map.cell? p = some cell) : p.Fits ∧ cell.Fits := by
  obtain ⟨hrow, hcol⟩ := hmap.inside hcell
  obtain ⟨token, htoken⟩ := hmap.tokens p cell hcell
  have hp : p.Fits := ⟨by omega, by omega⟩
  have hposition : cell.position.Fits := hmap.position hcell ▸ hp
  exact ⟨hp, hposition.1, hposition.2, fun id => Cell.warpId_le_of_ofToken htoken⟩

/-- **A map from a text keeps to the widths of the exchange form.** -/
theorem fits_of_read {rules : MapRules} {text : String} {map : GridMap}
    (h : read rules text = .ok map) (hlength : text.length < Text.max64) : map.Fits := by
  have hmap := drawn_of_read h
  obtain ⟨hrows, hcolumns⟩ := size_le_of_read h
  have hfits : ∀ {p cell}, map.cell? p = some cell → p.Fits ∧ cell.Fits :=
    hmap.cell_fits (by omega) (by omega)
  obtain ⟨grid, _, rfl, _, _⟩ := exists_grid_of_read h
  refine
    { grid := fun row hrow cell hcell => ?_
      rows := by omega
      columns := by omega
      start := fun cell hcell => (hfits (hmap.start_spec hcell).1).2
      gems := fun p hp => ?_
      switches := fun p hp => ?_
      portals := fun e he => ?_ }
  · exact (hfits (hmap.cell?_of_mem (List.mem_flatten.mpr ⟨row, hrow, hcell⟩))).2
  · obtain ⟨cell, hcell, _⟩ := hmap.mem_gemsOf_iff.mp hp
    exact (hfits hcell).1
  · obtain ⟨e, he, rfl⟩ := List.mem_map.mp hp
    obtain ⟨cell, hcell, _⟩ := hmap.get?_switchesOf_iff.mp (OrderedMap.get?_of_mem_entries he)
    exact (hfits hcell).1
  · obtain ⟨hplaces, hne⟩ := get?_portalsOf_iff.mp (OrderedMap.get?_of_mem_entries he)
    have hbears : ∀ p ∈ e.2, p.Fits ∧ e.1 ≤ Text.max32 := by
      intro p hp
      rw [hplaces] at hp
      obtain ⟨cell, hcell, hwarp⟩ := hmap.mem_portalCells_iff.mp hp
      obtain ⟨hp, hcell⟩ := hfits hcell
      exact ⟨hp, hcell.warpId e.1 hwarp⟩
    -- a number is listed only if a cell bears it
    obtain ⟨p, hp⟩ := List.exists_mem_of_ne_nil _ hne
    exact ⟨(hbears p hp).2, fun q hq => (hbears q hq).1⟩

end GridMap

/-! ## Scripts -/

namespace Script

theorem rangeLength_le {header : String} {r : RangeText} {n : Nat}
    (h : rangeLength header r = .ok n) : n ≤ Text.max64 := by
  unfold rangeLength at h
  obtain ⟨first, _, h⟩ := exists_of_bind_eq_ok h
  obtain ⟨last, _, h⟩ := exists_of_bind_eq_ok h
  generalize last - first + (if r.inclusive then 1 else 0) = length at h
  dsimp only at h
  by_cases hfits : (!Text.fits64 (last - first) || !Text.fits64 length) = true
  · rw [if_pos hfits] at h
    cases h
  · rw [if_neg hfits] at h
    split at h
    · cases h
      -- the length was checked to fit, and a signed word is below an unsigned one
      have hlength : Text.fits64 length = true := by
        simp only [Bool.or_eq_true, not_or, Bool.not_eq_true', Bool.not_eq_false] at hfits
        exact hfits.2
      have hle : length ≤ Text.maxSigned64 := by simpa using (Bool.and_eq_true_iff.mp hlength).2
      unfold Text.maxSigned64 at hle
      unfold Text.max64
      omega
    · cases h

theorem loopCount_le {cs : List Char} {n : Nat} (h : loopCount cs = .ok n) : n ≤ Text.max64 := by
  unfold loopCount at h
  split at h
  · split at h
    · cases h
    · cases h
    · next hdigits =>
      cases h
      exact Text.le_of_digitsUpTo? hdigits
  · split at h
    · exact rangeLength_le h
    · cases h

theorem commandCount_le {main : List Stmt} {functions : List FunctionDef} {n : Nat}
    (h : commandCount main functions = .ok (some n)) : n ≤ Text.max64 := by
  obtain ⟨flat, _, rfl⟩ := exists_unrolls_of_commandCount h
  exact Nat.min_le_right _ _

/-! ### Statements -/

/-- All lines of the tokens are 32-bit numbers. -/
def LinesFit (ts : List Token) : Prop :=
  ∀ t ∈ ts, t.line ≤ Text.max32

theorem linesFit_cons {t : Token} {ts : List Token} :
    LinesFit (t :: ts) ↔ t.line ≤ Text.max32 ∧ LinesFit ts :=
  List.forall_mem_cons

theorem LinesFit.mono {ts us : List Token} (h : LinesFit ts) (hsubset : us ⊆ ts) : LinesFit us :=
  fun t ht => h t (hsubset ht)

/-- All numbers of a phrase fit. -/
def Phrase.Fits : Phrase → Prop
  | .conditional s | .statement s => s.Fits
  | .statements ss | .block ss => Stmt.AllFit ss
  | .alternative alternate => ∀ ss ∈ alternate, Stmt.AllFit ss

theorem fits_ifWith {condition : Condition} {consequent : List Stmt}
    {alternate : Option (List Stmt)} {source : SourceRef} (hconsequent : Stmt.AllFit consequent)
    (halternate : ∀ ss ∈ alternate, Stmt.AllFit ss) (hsource : source.Fits) :
    (Stmt.ifWith condition consequent alternate source).Fits := by
  cases alternate with
  | none =>
      rw [Stmt.ifWith, Stmt.Fits]
      exact ⟨hconsequent, hsource⟩
  | some ss =>
      rw [Stmt.ifWith, Stmt.Fits]
      exact ⟨hconsequent, halternate ss rfl, hsource⟩

/-- What is derived from tokens whose lines fit, fits. -/
theorem Derives.fits {ts rest : List Token} {phrase : Phrase} (h : Derives ts phrase rest) :
    LinesFit ts → phrase.Fits := by
  induction h with
  -- each rule takes the line of its header, and the rest from the tokens behind it
  | conditional _ _ hblock _ ihblock ihelse =>
      intro hts
      obtain ⟨hline, hts⟩ := linesFit_cons.mp hts
      exact fits_ifWith (ihblock hts) (ihelse (hts.mono hblock.subset)) hline
  | plain _ => exact fun hts => by simp [Phrase.Fits]
  | elseBlock _ ih =>
      intro hts
      have hbody := ih (linesFit_cons.mp hts).2
      simpa [Phrase.Fits] using hbody
  | elseIf _ ih =>
      intro hts
      have hss : Stmt.AllFit [_] := ⟨ih (linesFit_cons.mp hts).2, trivial⟩
      simpa [Phrase.Fits] using hss
  | ofConditional _ ih => exact ih
  | whileDo _ _ _ ih =>
      intro hts
      obtain ⟨hline, hts⟩ := linesFit_cons.mp hts
      rw [Phrase.Fits, Stmt.Fits]
      exact ⟨ih hts, hline⟩
  | loop _ hcount _ ih =>
      intro hts
      obtain ⟨hline, hts⟩ := linesFit_cons.mp hts
      rw [Phrase.Fits, Stmt.Fits]
      exact ⟨loopCount_le hcount, ih hts, hline⟩
  | command _ _ | call _ _ =>
      intro hts
      rw [Phrase.Fits, Stmt.Fits]
      exact (linesFit_cons.mp hts).1
  | nil => exact fun hts => trivial
  | cons hfirst _ ihfirst ihmore => exact fun hts => ⟨ihfirst hts, ihmore (hts.mono hfirst.subset)⟩
  | block _ ih => exact fun hts => ih (linesFit_cons.mp hts).2

theorem DerivesScript.fits {ts : List Token} {main : List Stmt} {functions : List FunctionDef}
    (h : DerivesScript ts main functions) :
    LinesFit ts → Stmt.AllFit main ∧ ∀ f ∈ functions, f.Fits := by
  induction h with
  | nil => exact fun _ => ⟨trivial, by simp⟩
  | statement hs _ ih =>
      intro hts
      obtain ⟨hmain, hfunctions⟩ := ih (hts.mono hs.subset)
      exact ⟨⟨hs.fits hts, hmain⟩, hfunctions⟩
  | function _ hblock _ ih =>
      intro hts
      obtain ⟨hline, hts⟩ := linesFit_cons.mp hts
      obtain ⟨hmain, hfunctions⟩ := ih (hts.mono hblock.subset)
      exact ⟨hmain, List.forall_mem_cons.mpr ⟨⟨hblock.fits hts, hline⟩, hfunctions⟩⟩

/-- **A program from a text keeps to the widths of the exchange form.** -/
theorem fits_of_read {text : String} {p : Program} (h : Script.read text = .ok p)
    (hlines : (Source.ofString text).lineCount ≤ Text.max32) : p.Fits := by
  have hspells := ofTokens_eq_ok_iff.mp h
  have htokens : LinesFit (Token.ofSource (Source.ofString text)) := fun t ht =>
    Token.line_le_max32 hlines ht
  obtain ⟨hmain, hfunctions⟩ := hspells.derived.fits htokens
  refine ⟨hmain, hfunctions, fun n hn => ?_⟩
  have hcount := hspells.count
  rw [Option.mem_def.mp hn] at hcount
  exact commandCount_le hcount

end Script

end GemGrid
