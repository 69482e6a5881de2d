/-!
# Decimal numerals

Reading of decimal numerals with an upper bound, as the script headers, portal tokens, position
keys and command-line options need them.  A numeral is a non-empty run of ASCII digits, and leading
zeros are allowed: `digits?_eq_some_iff` and `integer?_eq_some_iff` say what it is worth.  Numbers
are written by `Nat.repr`, and `digits?_repr` says that what was written is read back.

The widths of the formats that carry numbers are named here once.
-/

namespace GemGrid.Text

/-- The largest 16-bit word. -/
def max16 : Nat := 0xFFFF

/-- The largest 32-bit word. -/
def max32 : Nat := 0xFFFFFFFF

/-- The largest 64-bit word. -/
def max64 : Nat := 0xFFFFFFFFFFFFFFFF

/-- The largest signed 64-bit word. -/
def maxSigned64 : Nat := 0x7FFFFFFFFFFFFFFF

/-- The value of a non-empty run of ASCII digits. -/
def digits? (cs : List Char) : Option Nat :=
  if !cs.isEmpty && cs.all Char.isDigit then some (Nat.ofDigitChars 10 cs 0) else none

/-- The value of a non-empty run of ASCII digits that is at most `bound`. -/
def digitsUpTo? (bound : Nat) (cs : List Char) : Option Nat :=
  (digits? cs).filter (· ≤ bound)

/-- An unsigned numeral up to `bound`: digits, with at most one plus sign before them. -/
def unsigned? (bound : Nat) : List Char → Option Nat
  | '+' :: cs => digitsUpTo? bound cs
  | cs => digitsUpTo? bound cs

/-- The integer written by digits, with at most one minus sign before them. -/
def integer? : List Char → Option Int
  | '-' :: cs => (digits? cs).map fun (n : Nat) => -(n : Int)
  | cs => (digits? cs).map fun (n : Nat) => (n : Int)

/-- Whether an integer is a signed 64-bit word. -/
def fits64 (i : Int) : Bool :=
  -(maxSigned64 : Int) - 1 ≤ i && i ≤ maxSigned64

/-! ## What a numeral is worth -/

/-- A numeral is worth the number that its digits make in base ten, zeros in front included. -/
theorem digits?_eq_some_iff {cs : List Char} {n : Nat} :
    digits? cs = some n ↔
      cs ≠ [] ∧ (∀ c ∈ cs, c.isDigit = true) ∧ n = Nat.ofDigitChars 10 cs 0 := by
  unfold digits?
  by_cases hcs : (!cs.isEmpty && cs.all Char.isDigit) = true
  · rw [if_pos hcs, Option.some.injEq, eq_comm]
    obtain ⟨hne, hdigits⟩ : cs ≠ [] ∧ ∀ c ∈ cs, c.isDigit = true := by simpa using hcs
    exact ⟨fun hn => ⟨hne, hdigits, hn⟩, fun h => h.2.2⟩
  · rw [if_neg hcs]
    refine iff_of_false (by simp) fun ⟨hne, hdigits, _⟩ => hcs ?_
    simpa using ⟨hne, hdigits⟩

/-- Zeros in front of a numeral are worth nothing. -/
theorem digits?_zeros_append {cs : List Char} {n : Nat} (h : digits? cs = some n) (zeros : Nat) :
    digits? (List.replicate zeros '0' ++ cs) = some n := by
  obtain ⟨hne, hdigits, rfl⟩ := digits?_eq_some_iff.mp h
  have hzeros : ∀ c ∈ List.replicate zeros '0', c.isDigit = true := by
    intro c hc
    rw [List.eq_of_mem_replicate hc]
    rfl
  refine digits?_eq_some_iff.mpr ⟨by simp [hne], ?_, ?_⟩
  · exact fun c hc => (List.mem_append.mp hc).elim (hzeros c) (hdigits c)
  · rw [Nat.ofDigitChars_append, Nat.ofDigitChars_replicate_zero, Nat.mul_zero]

/-- An integer is a numeral, or the negative of one behind a minus sign. -/
theorem integer?_eq_some_iff {cs : List Char} {i : Int} :
    integer? cs = some i ↔ (∃ n : Nat, digits? cs = some n ∧ i = n) ∨
      ∃ (digits : List Char) (n : Nat), cs = '-' :: digits ∧ digits? digits = some n ∧ i = -n := by
  constructor
  · intro h
    unfold integer? at h
    split at h
    · next digits =>
      obtain ⟨n, hn, rfl⟩ := Option.map_eq_some_iff.mp h
      exact .inr ⟨digits, n, rfl, hn, rfl⟩
    · obtain ⟨n, hn, rfl⟩ := Option.map_eq_some_iff.mp h
      exact .inl ⟨n, hn, rfl⟩
  · rintro (⟨n, hn, rfl⟩ | ⟨digits, n, rfl, hn, rfl⟩)
    · rw [integer?, hn]
      · rfl
      · -- a minus sign is no digit
        rintro digits rfl
        cases hn
    · rw [integer?, hn]
      rfl

example : integer? "-007".toList = some (-7) := by
  decide

/-- A number that was written in decimal is read back. -/
theorem digits?_repr (n : Nat) : digits? n.repr.toList = some n := by
  have hdigits : ∀ c ∈ Nat.toDigits 10 n, c.isDigit = true := fun c hc =>
    Nat.isDigit_of_mem_toDigits (by omega) (by omega) hc
  rw [Nat.repr_eq_ofList_toDigits, String.toList_ofList]
  exact digits?_eq_some_iff.mpr
    ⟨Nat.toDigits_ne_nil, hdigits, (Nat.ofDigitChars_toDigits (by omega) (by omega)).symm⟩

end GemGrid.Text
