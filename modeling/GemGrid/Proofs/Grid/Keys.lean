import GemGrid.Grid.Position
import GemGrid.Proofs.Text
import Mathlib.Data.List.TakeWhile

/-!
# The keys of positions

A key has exactly one comma, as a coordinate is written with digits only.  So the two coordinates
can be cut out of it again, and different positions have different keys, however large they are.
-/

namespace GemGrid.Position

variable (p : Position)

theorem toList_key : p.key.toList = p.row.repr.toList ++ ',' :: p.col.repr.toList := by
  simp [key]

theorem ne_comma_of_mem_repr {n : Nat} {c : Char} (h : c ∈ n.repr.toList) : (c != ',') = true := by
  have hdigit := Text.isDigit_of_mem_repr h
  refine bne_iff_ne.mpr ?_
  rintro rfl
  cases hdigit

theorem takeWhile_key : p.key.toList.takeWhile (· != ',') = p.row.repr.toList := by
  rw [toList_key, List.takeWhile_append_of_pos fun _ => ne_comma_of_mem_repr,
    List.takeWhile_cons_of_neg (by simp), List.append_nil]

theorem dropWhile_key : p.key.toList.dropWhile (· != ',') = ',' :: p.col.repr.toList := by
  rw [toList_key, List.dropWhile_append_of_pos fun _ => ne_comma_of_mem_repr,
    List.dropWhile_cons_of_neg (by simp)]

theorem key_injective : Function.Injective key := by
  have hrepr : ∀ {a b : Nat}, a.repr.toList = b.repr.toList → a = b := by
    intro a b h
    have hdigits := Text.digits?_repr a
    rw [h, Text.digits?_repr] at hdigits
    exact (Option.some.inj hdigits).symm
  intro p q h
  -- the comma is no digit: what stands before it is the row, what stands behind it the column
  have hrow : p.row = q.row := by
    apply hrepr
    rw [← takeWhile_key, ← takeWhile_key, h]
  have hcol : p.col = q.col := by
    have htail := dropWhile_key q
    rw [← h, dropWhile_key] at htail
    exact hrepr (List.tail_eq_of_cons_eq htail)
  exact (Position.mk.injEq ..).mpr ⟨hrow, hcol⟩

end GemGrid.Position
