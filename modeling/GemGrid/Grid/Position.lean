import GemGrid.Grid.Direction
import GemGrid.OrderedMap
import GemGrid.Text.Blank
import GemGrid.Text.Decimal

/-!
# Positions

A position is a row and a column, both counted from zero.  Positions are ordered row by row.

* `Position.key` writes a position as `row,col`, the form in which maps and traces list cells;
  `Position.ofKey?` reads it and is lenient about blanks and a plus sign.
* `Position.step` is the neighbour in a direction.  Coordinates are 64-bit words that a step reads
  as signed numbers, so one in the upper half of the range lies above or left of the grid.
* `Position.render` counts from one, for messages.
-/

namespace GemGrid

/-- A cell of the grid by row and column, counted from zero. -/
structure Position where
  row : Nat
  col : Nat
deriving DecidableEq, Repr, Inhabited

namespace Position

/-- Row by row, and by column within a row. -/
instance : KeyOrder Position where
  lt a b := a.row < b.row ∨ (a.row = b.row ∧ a.col < b.col)
  decide_lt _ _ := inferInstanceAs (Decidable (_ ∨ _))
  irrefl a h := by
    rcases h with h | ⟨_, h⟩ <;> exact Nat.lt_irrefl _ h
  trans := by
    rintro a b c (h | ⟨h, h'⟩) (k | ⟨k, k'⟩)
    · exact .inl (Nat.lt_trans h k)
    · exact .inl (k ▸ h)
    · exact .inl (h ▸ k)
    · exact .inr ⟨h.trans k, Nat.lt_trans h' k'⟩
  connected := by
    intro a b hab hba
    have hrow : a.row = b.row :=
      Nat.le_antisymm (Nat.not_lt.1 fun h => hba (.inl h)) (Nat.not_lt.1 fun h => hab (.inl h))
    have hcol : a.col = b.col :=
      Nat.le_antisymm (Nat.not_lt.1 fun h => hba (.inr ⟨hrow.symm, h⟩))
        (Nat.not_lt.1 fun h => hab (.inr ⟨hrow, h⟩))
    cases a; cases b; simp_all

/-- The form `row,col`. -/
def key (p : Position) : String :=
  p.row.repr ++ "," ++ p.col.repr

/-- The coordinate that a key's part stands for: a 64-bit numeral, blanks around it ignored. -/
def coordinate? (cs : List Char) : Option Nat :=
  Text.unsigned? Text.max64 (Text.trim cs)

/-- Reads the form `row,col`, cut at the first comma. -/
def ofKey? (key : String) : Option Position :=
  let cs := key.toList
  match cs.dropWhile (· != ',') with
  | [] => none
  | _ :: col => do
    return { row := ← coordinate? (cs.takeWhile (· != ',')), col := ← coordinate? col }

/-- The position in messages, counted from one. -/
def render (p : Position) : String :=
  let row := (p.row + 1) % (Text.max64 + 1)
  let col := (p.col + 1) % (Text.max64 + 1)
  s!"({row}, {col})"

/-- A 64-bit word read as a signed number. -/
def signed (n : Nat) : Int :=
  if n ≤ Text.maxSigned64 then n else (n : Int) - Text.max64 - 1

/-- A coordinate after a displacement, if it is still on the grid's side of zero. -/
def shift? (n : Nat) (delta : Int) : Option Nat :=
  let moved := signed n + delta
  if 0 ≤ moved ∧ moved ≤ Text.maxSigned64 then some moved.toNat else none

/-- The neighbour in a direction; none above the first row or left of the first column. -/
def step (p : Position) (d : Direction) : Option Position := do
  return { row := ← shift? p.row d.rowDelta, col := ← shift? p.col d.colDelta }

end Position

end GemGrid
