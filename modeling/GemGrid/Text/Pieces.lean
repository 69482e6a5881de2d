import GemGrid.Text.Blank

/-!
# Cutting a text into pieces

Lines, map rows, cells and words all come from the same operation: cut a text at every character
of a class.  `pieces` keeps the empty pieces, so that joining them with a break gives the text
back when the class has a single character (`intercalate_pieces`); `words` keeps the non-empty
pieces between blanks.
-/

namespace GemGrid.Text

/-- The pieces of a text between the characters that `isBreak` holds of, empty ones included. -/
def pieces (isBreak : Char → Bool) : List Char → List (List Char)
  | [] => [[]]
  | c :: cs =>
    if isBreak c then [] :: pieces isBreak cs
    else
      match pieces isBreak cs with
      | [] => [[c]]
      | piece :: rest => (c :: piece) :: rest

/-- The maximal blank-free runs of a text. -/
def words (cs : List Char) : List (List Char) :=
  (pieces isBlank cs).filter fun piece => !piece.isEmpty

/-- The words of a text with a single space between neighbours. -/
def collapse (cs : List Char) : List Char :=
  [' '].intercalate (words cs)

/-! ## Small facts -/

/-- There is always a piece, even of the empty text. -/
theorem pieces_ne_nil (isBreak : Char → Bool) (cs : List Char) : pieces isBreak cs ≠ [] := by
  cases cs with
  | nil => simp [pieces]
  | cons c cs =>
      rw [pieces]
      split
      · simp
      · split <;> simp

/-- No piece holds a break. -/
theorem not_isBreak_of_mem_pieces (isBreak : Char → Bool) :
    ∀ (cs : List Char), ∀ piece ∈ pieces isBreak cs, ∀ c ∈ piece, isBreak c = false
  | [] => by simp [pieces]
  | c :: cs => by
      have ih := not_isBreak_of_mem_pieces isBreak cs
      rw [pieces]
      split
      · simpa using ih
      · next hc =>
        cases hp : pieces isBreak cs with
        | nil => simpa using hc
        -- the character joins the first piece
        | cons piece rest =>
            rw [hp] at ih
            intro p hmem d hd
            rcases List.mem_cons.1 hmem with rfl | hrest
            · rcases List.mem_cons.1 hd with rfl | htail
              · simpa using hc
              · exact ih piece (by simp) d htail
            · exact ih p (by simp [hrest]) d hd

/-- Cutting at one character loses nothing: the pieces joined by it are the text. -/
theorem intercalate_pieces (b : Char) :
    ∀ (cs : List Char), [b].intercalate (pieces (· == b) cs) = cs
  | [] => by simp [pieces, List.intercalate]
  | c :: cs => by
      have ih := intercalate_pieces b cs
      rw [pieces]
      cases hp : pieces (· == b) cs with
      | nil => exact absurd hp (pieces_ne_nil _ _)
      | cons piece rest =>
          rw [hp] at ih
          -- a break starts an empty piece in front, any other character joins the first one
          split
          · next hc =>
            have : c = b := by simpa using hc
            subst this
            simp only [List.intercalate, List.intersperse, List.flatten_cons] at ih ⊢
            simpa using ih
          · cases rest with
            | nil => simpa [List.intercalate] using ih
            | cons next rest => simpa [List.intercalate] using ih

end GemGrid.Text
