import GemGrid.Text.Decimal
import GemGrid.Text.Pieces
import Mathlib.Data.List.Basic
import Mathlib.Data.List.TakeWhile

/-!
# Numerals, blanks and pieces

What was written is found again.

* A number that is written in decimal consists of digits, so nothing that reads it back sees a
  blank, a sign or a comma in it, and it is found again within every bound that it keeps.
* A text that is `Trimmed` neither starts nor ends with a blank, so trimming leaves it alone.
* Texts without breaks that are joined by a break are the pieces of the whole
  (`pieces_intercalate`).
-/

namespace GemGrid.Text

/-! ## Numerals -/

theorem isDigit_of_mem_repr {n : Nat} {c : Char} (h : c ∈ n.repr.toList) : c.isDigit = true := by
  obtain ⟨_, hdigits, _⟩ := digits?_eq_some_iff.mp (digits?_repr n)
  exact hdigits c h

theorem repr_ne_nil (n : Nat) : n.repr.toList ≠ [] :=
  (digits?_eq_some_iff.mp (digits?_repr n)).1

theorem toNat_of_isDigit {c : Char} (h : c.isDigit = true) : 48 ≤ c.toNat ∧ c.toNat ≤ 57 := by
  rw [Char.isDigit, Bool.and_eq_true, decide_eq_true_eq, decide_eq_true_eq] at h
  exact h

theorem isBlank_of_isDigit {c : Char} (h : c.isDigit = true) : isBlank c = false := by
  obtain ⟨hlow, hhigh⟩ := toNat_of_isDigit h
  simp only [isBlank, Bool.or_eq_false_iff, Bool.and_eq_false_iff, decide_eq_false_iff_not,
    beq_eq_false_iff_ne]
  omega

theorem digitsUpTo?_repr {bound n : Nat} (h : n ≤ bound) :
    digitsUpTo? bound n.repr.toList = some n := by
  rw [digitsUpTo?, digits?_repr, Option.filter_some, if_pos (decide_eq_true h)]

/-! ## Blanks at the ends -/

/-- A text that has no blanks at its ends, and something between them. -/
structure Trimmed (cs : List Char) : Prop where
  nonempty : cs ≠ []
  first : ∀ c ∈ cs.head?, isBlank c = false
  last : ∀ c ∈ cs.getLast?, isBlank c = false

theorem trimmed_of_not_blank {cs : List Char} (hne : cs ≠ []) (h : ∀ c ∈ cs, isBlank c = false) :
    Trimmed cs :=
  ⟨hne, fun c hc => h c (List.mem_of_mem_head? hc), fun c hc => h c (List.mem_of_mem_getLast? hc)⟩

theorem eq_false_of_any {p : Char → Bool} {cs : List Char} (h : cs.any p = false) :
    ∀ c ∈ cs, p c = false := by
  simpa using h

theorem trimmed_of_any {cs : List Char} (hne : cs ≠ []) (h : cs.any isBlank = false) : Trimmed cs :=
  trimmed_of_not_blank hne (eq_false_of_any h)

namespace Trimmed

variable {as bs cs : List Char}

/-- What stands between two trimmed texts does not matter. -/
theorem append (ha : Trimmed as) (hb : Trimmed bs) (gap : List Char) :
    Trimmed (as ++ (gap ++ bs)) := by
  refine ⟨by simp [ha.nonempty], fun c hc => ha.first c ?_, fun c hc => hb.last c ?_⟩
  · rwa [List.head?_append_of_ne_nil _ ha.nonempty] at hc
  · rwa [← List.append_assoc, List.getLast?_append_of_ne_nil _ hb.nonempty] at hc

theorem trimStart_eq (h : Trimmed cs) (rest : List Char) : trimStart (cs ++ rest) = cs ++ rest := by
  cases cs with
  | nil => exact absurd rfl h.nonempty
  | cons c cs => exact trimStart_cons_of_not_blank _ (h.first c rfl)

theorem trimEnd_eq (h : Trimmed cs) : trimEnd cs = cs := by
  rcases List.eq_nil_or_concat' cs with rfl | ⟨before, c, rfl⟩
  · exact absurd rfl h.nonempty
  · exact trimEnd_concat_of_not_blank before (h.last c (by simp))

theorem trim_eq (h : Trimmed cs) : trim cs = cs := by
  have hstart := h.trimStart_eq []
  rw [List.append_nil] at hstart
  rw [trim, hstart, h.trimEnd_eq]

/-- A blank behind the text goes away. -/
theorem trim_concat (h : Trimmed cs) {c : Char} (hc : isBlank c = true) :
    trim (cs ++ [c]) = cs := by
  have hend : trimEnd (cs ++ [c]) = trimEnd cs := by simp [trimEnd, hc]
  rw [trim, h.trimStart_eq, hend, h.trimEnd_eq]

end Trimmed

theorem length_trimEnd_le (cs : List Char) : (trimEnd cs).length ≤ cs.length := by
  have hlength := (List.dropWhile_suffix (l := cs.reverse) isBlank).length_le
  rw [List.length_reverse] at hlength
  rwa [trimEnd, List.length_reverse]

theorem isPrefix_trimEnd (cs : List Char) : trimEnd cs <+: cs := by
  have hsuffix := List.dropWhile_suffix (l := cs.reverse) isBlank
  rwa [← List.reverse_prefix, List.reverse_reverse] at hsuffix

theorem infix_trim (cs : List Char) : trim cs <:+: cs :=
  (isPrefix_trimEnd _).isInfix.trans (List.dropWhile_suffix isBlank).isInfix

theorem not_blank_of_head?_dropWhile {cs : List Char} {c : Char}
    (h : c ∈ (cs.dropWhile isBlank).head?) : isBlank c = false := by
  have hnot := List.head?_dropWhile_not isBlank cs
  rwa [Option.mem_def.mp h] at hnot

/-- What trimming leaves of a text is trimmed, unless it leaves nothing. -/
theorem trimmed_trim {cs : List Char} (h : trim cs ≠ []) : Trimmed (trim cs) := by
  refine ⟨h, fun c hc => ?_, fun c hc => ?_⟩
  · obtain ⟨behind, hsplit⟩ : trim cs <+: trimStart cs := isPrefix_trimEnd _
    have hhead : (trimStart cs).head? = (trim cs).head? := by
      rw [← hsplit, List.head?_append_of_ne_nil _ h]
    rw [← hhead] at hc
    exact not_blank_of_head?_dropWhile hc
  · rw [trim, trimEnd, List.getLast?_reverse] at hc
    exact not_blank_of_head?_dropWhile hc

/-- Trimming leaves the first character that is no blank. -/
theorem head?_trim {c : Char} (hc : isBlank c = false) (cs : List Char) :
    (trim (c :: cs)).head? = some c := by
  have htrim : trim (c :: cs) = trimEnd (c :: cs) := by
    rw [trim, trimStart_cons_of_not_blank _ hc]
  have hne : trim (c :: cs) ≠ [] := by
    intro hnil
    rw [htrim, trimEnd, List.reverse_eq_nil_iff, List.dropWhile_eq_nil_iff] at hnil
    have hblank := hnil c (by simp)
    rw [hc] at hblank
    cases hblank
  obtain ⟨behind, hsplit⟩ : trim (c :: cs) <+: c :: cs := htrim ▸ isPrefix_trimEnd _
  rw [← List.head?_append_of_ne_nil _ hne, hsplit]
  rfl

theorem trimmed_repr (n : Nat) : Trimmed n.repr.toList :=
  trimmed_of_not_blank (repr_ne_nil n) fun _ hc => isBlank_of_isDigit (isDigit_of_mem_repr hc)

theorem unsigned?_repr {bound n : Nat} (h : n ≤ bound) :
    unsigned? bound n.repr.toList = some n := by
  cases hcs : n.repr.toList with
  | nil => exact absurd hcs (repr_ne_nil n)
  | cons c cs =>
      have hdigit : c.isDigit = true := isDigit_of_mem_repr (by rw [hcs]; simp)
      have hplus : c ≠ '+' := by
        rintro rfl
        cases hdigit
      rw [unsigned?, ← hcs, digitsUpTo?_repr h]
      simpa using hplus

theorem le_of_digitsUpTo? {bound n : Nat} {cs : List Char} (h : digitsUpTo? bound cs = some n) :
    n ≤ bound := by
  have hfilter := (Option.filter_eq_some_iff.mp h).2
  simpa using hfilter

/-! ## Pieces -/

theorem length_pieces_le (isBreak : Char → Bool) (cs : List Char) :
    (pieces isBreak cs).length ≤ cs.length + 1 := by
  induction cs with
  | nil => simp [pieces]
  | cons c cs ih =>
      rw [pieces, List.length_cons]
      split
      · rw [List.length_cons]
        omega
      · split
        · simp
        · next piece rest hpieces =>
          rw [hpieces] at ih
          exact Nat.le_succ_of_le ih

theorem length_le_of_mem_pieces {isBreak : Char → Bool} {cs piece : List Char}
    (h : piece ∈ pieces isBreak cs) : piece.length ≤ cs.length := by
  induction cs generalizing piece with
  | nil =>
      obtain rfl : piece = [] := by simpa [pieces] using h
      exact Nat.le_refl _
  | cons c cs ih =>
      rw [pieces] at h
      rw [List.length_cons]
      split at h
      · rcases List.mem_cons.mp h with rfl | hrest
        · exact Nat.zero_le _
        · exact Nat.le_succ_of_le (ih hrest)
      · -- a character that is no break lengthens the first piece and leaves the others
        split at h
        · obtain rfl := List.mem_singleton.mp h
          exact Nat.succ_le_succ (Nat.zero_le _)
        · next first rest hpieces =>
          rw [hpieces] at ih
          rcases List.mem_cons.mp h with rfl | hrest
          · exact Nat.succ_le_succ (ih List.mem_cons_self)
          · exact Nat.le_succ_of_le (ih (List.mem_cons_of_mem _ hrest))

theorem pieces_eq_self {isBreak : Char → Bool} {cs : List Char}
    (h : ∀ c ∈ cs, isBreak c = false) : pieces isBreak cs = [cs] := by
  induction cs with
  | nil => rfl
  | cons c cs ih =>
      obtain ⟨hc, hcs⟩ := List.forall_mem_cons.mp h
      simp [pieces, hc, ih hcs]

theorem pieces_append {isBreak : Char → Bool} {cs : List Char} (h : ∀ c ∈ cs, isBreak c = false)
    {b : Char} (hb : isBreak b = true) (rest : List Char) :
    pieces isBreak (cs ++ b :: rest) = cs :: pieces isBreak rest := by
  induction cs with
  | nil => simp [pieces, hb]
  | cons c cs ih =>
      obtain ⟨hc, hcs⟩ := List.forall_mem_cons.mp h
      simp [pieces, hc, ih hcs]

theorem mem_intercalate {b c : Char} {texts : List (List Char)}
    (h : c ∈ [b].intercalate texts) : c = b ∨ ∃ text ∈ texts, c ∈ text := by
  induction texts with
  | nil => simp [List.intercalate] at h
  | cons text texts ih =>
      cases texts with
      | nil =>
          rw [List.intercalate_singleton] at h
          exact .inr ⟨text, List.mem_singleton_self text, h⟩
      | cons next texts =>
          rw [List.intercalate_cons_cons, List.mem_append, List.mem_append] at h
          rcases h with (h | h) | h
          · exact .inr ⟨text, List.mem_cons_self .., h⟩
          · exact .inl (List.mem_singleton.mp h)
          · rcases ih h with hb | ⟨text', htext', hc⟩
            · exact .inl hb
            · exact .inr ⟨text', List.mem_cons_of_mem _ htext', hc⟩

theorem infix_intercalate {b : Char} {text : List Char} {texts : List (List Char)}
    (h : text ∈ texts) : text <:+: [b].intercalate texts := by
  induction texts with
  | nil => simp at h
  | cons first texts ih =>
      cases texts with
      | nil =>
          obtain rfl := List.mem_singleton.mp h
          simp only [List.intercalate_singleton, List.infix_rfl]
      | cons next texts =>
          rw [List.intercalate_cons_cons]
          rcases List.mem_cons.mp h with rfl | h
          · exact ((List.prefix_append _ _).trans (List.prefix_append _ _)).isInfix
          · exact (ih h).trans (List.suffix_append _ _).isInfix

/-- The pieces of a text stand in it. -/
theorem infix_of_mem_pieces {b : Char} {cs piece : List Char} (h : piece ∈ pieces (· == b) cs) :
    piece <:+: cs := by
  have hinfix := infix_intercalate (b := b) h
  rwa [intercalate_pieces] at hinfix

/-- Texts that are joined by a break are found again, also where other characters are breaks. -/
theorem pieces_intercalate_of_isBreak {isBreak : Char → Bool} {b : Char} (hb : isBreak b = true)
    {texts : List (List Char)} (hne : texts ≠ [])
    (h : ∀ text ∈ texts, ∀ c ∈ text, isBreak c = false) :
    pieces isBreak ([b].intercalate texts) = texts := by
  induction texts with
  | nil => exact absurd rfl hne
  | cons text texts ih =>
      obtain ⟨htext, htexts⟩ := List.forall_mem_cons.mp h
      cases texts with
      | nil =>
          rw [List.intercalate_singleton]
          exact pieces_eq_self htext
      | cons next texts =>
          rw [List.intercalate_cons_cons, List.append_assoc, List.singleton_append,
            pieces_append htext hb, ih (by simp) htexts]

/-- Texts that are joined by a break are found again. -/
theorem pieces_intercalate {b : Char} {texts : List (List Char)} (hne : texts ≠ [])
    (h : ∀ text ∈ texts, b ∉ text) : pieces (· == b) ([b].intercalate texts) = texts := by
  refine pieces_intercalate_of_isBreak ?_ hne fun text htext c hc => ?_
  · exact beq_self_eq_true b
  · exact beq_false_of_ne fun heq => h text htext (heq ▸ hc)

end GemGrid.Text
