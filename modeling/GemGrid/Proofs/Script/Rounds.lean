import GemGrid.Proofs.Script.LoopForms

/-!
# How many rounds a loop header denotes

The count of a header is a fact of integer arithmetic: the number that is written in it, or the
number of integers of its range.  The reader computes it in 64-bit words, with checks.  The checks
only refuse what is no count (`Settles`), and where they pass, no step has wrapped around
(`ExactInWords`).  `loopCount_exact` says both of every header.
-/

namespace GemGrid

open Text

namespace Script

/-! ## Their number -/

/-- The number of rounds, which is positive and fits in a word.  What the numerals of a header are
worth is said by `Text.digits?_eq_some_iff` and `Text.integer?_eq_some_iff`. -/
inductive Rounds.Denotes : Rounds → Nat → Prop
  | times {digits : List Char} {n : Nat} : digits? digits = some n → 1 ≤ n → n ≤ max64 →
      Denotes (.times digits) n
  | range {r : RangeText} {a b : Int} {n : Nat} : integer? r.first = some a →
      integer? r.last = some b → fits64 a = true → fits64 b = true →
      (n : Int) = b - a + (if r.inclusive then 1 else 0) → 1 ≤ n → n ≤ maxSigned64 →
      Denotes (.range r) n

/-- A result is the number of the rounds, or an error if they have none. -/
structure Settles (result : Except LoopError Nat) (rounds : Rounds) : Prop where
  ok : ∀ n, result = .ok n ↔ rounds.Denotes n
  error : ∀ e, result = .error e → e.code = 205

theorem Settles.of_error {e : LoopError} {rounds : Rounds} (hcode : e.code = 205)
    (h : ∀ n, ¬ rounds.Denotes n) : Settles (.error e) rounds := by
  constructor
  · exact fun n => iff_of_false (fun hok => by cases hok) (h n)
  · intro e' he
    cases he
    exact hcode

theorem Settles.of_ok {m : Nat} {rounds : Rounds} (h : ∀ n, rounds.Denotes n ↔ n = m) :
    Settles (.ok m) rounds := by
  constructor
  · intro n
    rw [h n, Except.ok.injEq, eq_comm]
  · intro e he
    cases he

theorem denotes_times_iff {digits : List Char} {n : Nat} :
    Rounds.Denotes (.times digits) n ↔ digitsUpTo? max64 digits = some n ∧ n ≠ 0 := by
  rw [digitsUpTo?, Option.filter_eq_some_iff, decide_eq_true_eq]
  constructor
  · rintro ⟨hdigits, hpos, hmax⟩
    exact ⟨⟨hdigits, hmax⟩, Nat.ne_of_gt hpos⟩
  · rintro ⟨⟨hdigits, hmax⟩, hne⟩
    exact .times hdigits (Nat.pos_of_ne_zero hne) hmax

theorem settles_times {header digits : List Char} (h : timesDigits? header = some digits) :
    Settles (loopCount header) (.times digits) := by
  rw [loopCount, h]
  dsimp only
  split
  · next hnone =>
    -- digits without a value in range denote no number
    refine .of_error rfl fun n hn => ?_
    rw [denotes_times_iff, hnone] at hn
    cases hn.1
  · next hzero =>
    refine .of_error rfl fun n hn => ?_
    rw [denotes_times_iff, hzero] at hn
    exact hn.2 (Option.some.inj hn.1).symm
  · next m hne hm =>
    refine .of_ok fun n => ?_
    rw [denotes_times_iff, hm, Option.some.injEq, eq_comm]
    exact and_iff_left_of_imp fun hn hzero => hne (hn ▸ hzero)

theorem rangeLength_eq (header : String) (r : RangeText) :
    rangeLength header r =
      match (integer? r.first).filter fits64, (integer? r.last).filter fits64 with
      | some a, some b =>
        let n := b - a + if r.inclusive then 1 else 0
        if !fits64 (b - a) || !fits64 n then .error (.rangeTooLarge header)
        else if 0 < n then .ok n.toNat
        else .error (.rangeEmpty a b)
      | _, _ => .error (.boundTooLarge header) := by
  unfold rangeLength
  dsimp only
  cases (integer? r.first).filter fits64 with
  | none => rfl
  | some a =>
      cases (integer? r.last).filter fits64 with
      | none => rfl
      | some b => rfl

theorem denotes_range_iff {r : RangeText} {n : Nat} :
    Rounds.Denotes (.range r) n ↔ ∃ a b, (integer? r.first).filter fits64 = some a ∧
      (integer? r.last).filter fits64 = some b ∧
      (n : Int) = b - a + (if r.inclusive then 1 else 0) ∧ 1 ≤ n ∧ n ≤ maxSigned64 := by
  simp only [Option.filter_eq_some_iff]
  constructor
  · intro h
    cases h with
    | range ha hb hfita hfitb hn hpos hmax =>
        exact ⟨_, _, ⟨ha, hfita⟩, ⟨hb, hfitb⟩, hn, hpos, hmax⟩
  · rintro ⟨a, b, ⟨ha, hfita⟩, ⟨hb, hfitb⟩, hn, hpos, hmax⟩
    exact .range ha hb hfita hfitb hn hpos hmax

theorem fits64_iff {i : Int} :
    fits64 i = true ↔ -9223372036854775808 ≤ i ∧ i ≤ 9223372036854775807 := by
  unfold fits64 maxSigned64
  rw [Bool.and_eq_true, decide_eq_true_eq, decide_eq_true_eq]
  omega

/-- What an inclusive range has more than one that is not. -/
theorem extra_cases (inclusive : Bool) :
    (if inclusive then (1 : Int) else 0) = 0 ∨ (if inclusive then (1 : Int) else 0) = 1 := by
  cases inclusive <;> simp

/-- The checked steps from two bounds to the number of integers between them leave the signed
words only if that number does, or is not positive. -/
theorem settles_span {header : String} {r : RangeText} {a b : Int}
    (hfirst : (integer? r.first).filter fits64 = some a)
    (hlast : (integer? r.last).filter fits64 = some b) :
    Settles (rangeLength header r) (.range r) := by
  have hdenotes : ∀ n, Rounds.Denotes (.range r) n ↔
      (n : Int) = b - a + (if r.inclusive then 1 else 0) ∧ 1 ≤ n ∧ n ≤ 9223372036854775807 := by
    intro n
    simp [denotes_range_iff, hfirst, hlast, maxSigned64]
  have hextra := extra_cases r.inclusive
  rw [rangeLength_eq, hfirst, hlast]
  dsimp only
  -- over the integers both ends of the range are plain, and only the bounds are left to compare
  generalize (if r.inclusive then (1 : Int) else 0) = extra at hdenotes hextra
  split
  · next hlarge =>
    refine .of_error rfl fun n hn => ?_
    obtain ⟨hn, hpos, hmax⟩ := (hdenotes n).mp hn
    simp only [Bool.or_eq_true, Bool.not_eq_true', ← Bool.not_eq_true, fits64_iff] at hlarge
    omega
  · next hfits =>
    simp only [Bool.or_eq_true, Bool.not_eq_true', ← Bool.not_eq_true, fits64_iff] at hfits
    split
    · next hpos =>
      refine .of_ok fun n => ?_
      rw [hdenotes]
      omega
    · next hempty =>
      refine .of_error rfl fun n hn => ?_
      obtain ⟨hn, hpos, -⟩ := (hdenotes n).mp hn
      omega

theorem settles_range (header : String) (r : RangeText) :
    Settles (rangeLength header r) (.range r) := by
  -- a range with a bound out of the words denotes no number
  have hunbounded : ∀ n, (integer? r.first).filter fits64 = none ∨
      (integer? r.last).filter fits64 = none → ¬ Rounds.Denotes (.range r) n := by
    intro n hnone hn
    obtain ⟨a, b, ha, hb, -⟩ := denotes_range_iff.mp hn
    simp [ha, hb] at hnone
  cases hfirst : (integer? r.first).filter fits64 with
  | none =>
      rw [rangeLength_eq, hfirst]
      exact .of_error rfl fun n => hunbounded n (.inl hfirst)
  | some a =>
      cases hlast : (integer? r.last).filter fits64 with
      | none =>
          rw [rangeLength_eq, hfirst, hlast]
          exact .of_error rfl fun n => hunbounded n (.inr hlast)
      | some b => exact settles_span hfirst hlast

/-! ## In machine words -/

/-- The steps in machine words from the bounds of a range to the number of its integers: no step
leaves the signed words, and the cast at the end keeps the value. -/
structure ExactInWords (a b : Int) (inclusive : Bool) (n : Nat) : Prop where
  first : (Int64.ofInt a).toInt = a
  last : (Int64.ofInt b).toInt = b
  difference : (Int64.ofInt b - Int64.ofInt a).toInt = b - a
  length : (Int64.ofInt b - Int64.ofInt a + if inclusive then 1 else 0).toInt = n
  cast : (Int64.ofInt b - Int64.ofInt a + if inclusive then 1 else 0).toUInt64.toNat = n

theorem exactInWords {a b : Int} {inclusive : Bool} {n : Nat} (ha : fits64 a = true)
    (hb : fits64 b = true) (hn : (n : Int) = b - a + (if inclusive then 1 else 0)) (hpos : 1 ≤ n)
    (hmax : n ≤ maxSigned64) : ExactInWords a b inclusive n := by
  obtain ⟨halower, haupper⟩ := fits64_iff.mp ha
  obtain ⟨hblower, hbupper⟩ := fits64_iff.mp hb
  have hfirst : (Int64.ofInt a).toInt = a := Int64.toInt_ofInt_of_le (by omega) (by omega)
  have hlast : (Int64.ofInt b).toInt = b := Int64.toInt_ofInt_of_le (by omega) (by omega)
  have hextra := extra_cases inclusive
  have hone : (if inclusive then (1 : Int64) else 0).toInt = if inclusive then 1 else 0 := by
    cases inclusive <;> rfl
  unfold maxSigned64 at hmax
  -- neither the difference nor the sum leaves the words, so both are exact
  have hdifference : (Int64.ofInt b - Int64.ofInt a).toInt = b - a := by
    rw [Int64.toInt_sub, hfirst, hlast]
    exact Int.bmod_eq_of_le (by omega) (by omega)
  have hlength : (Int64.ofInt b - Int64.ofInt a + if inclusive then 1 else 0).toInt = n := by
    rw [Int64.toInt_add, hdifference, hone, ← hn]
    exact Int.bmod_eq_of_le (by omega) (by omega)
  refine ⟨hfirst, hlast, hdifference, hlength, ?_⟩
  rw [Int64.toNat_toUInt64_of_le, ← Int64.toNat_toInt, hlength, Int.toNat_natCast]
  rw [Int64.le_iff_toInt_le, hlength]
  exact Int.natCast_nonneg n

/-! ## Every header -/

/-- No header has both forms: nothing is left for a range behind the third word. -/
theorem headerRange?_of_times {header digits : List Char}
    (h : timesDigits? header = some digits) : headerRange? header = none := by
  obtain ⟨keyword, unit, hwords, -⟩ := timesDigits?_eq_some_iff.mp h
  rw [Option.eq_none_iff_forall_ne_some]
  intro r hr
  obtain ⟨keyword', counter, link, bounds, hwords', -, -, -, hbounds⟩ :=
    headerRange?_eq_some_iff.mp hr
  simp only [hwords, List.cons.injEq] at hwords'
  rw [← hwords'.2.2.2] at hbounds
  cases hbounds

theorem settles_of_asks {header : List Char} {rounds : Rounds}
    (h : Asks (collapse header) rounds) : Settles (loopCount header) rounds := by
  cases rounds with
  | times digits => exact settles_times (asks_times_iff.mp h)
  | range r =>
      have hr := asks_range_iff.mp h
      have htimes : timesDigits? header = none := by
        rw [Option.eq_none_iff_forall_ne_some]
        intro digits hdigits
        rw [headerRange?_of_times hdigits] at hr
        cases hr
      rw [loopCount, htimes, hr]
      exact settles_range (String.ofList header) r

theorem loopCount_of_no_form {header : List Char}
    (h : ∀ rounds, ¬ Asks (collapse header) rounds) :
    loopCount header = .error (.malformed (String.ofList header)) := by
  have htimes : timesDigits? header = none :=
    Option.eq_none_iff_forall_ne_some.mpr fun digits hdigits => h _ (asks_times_iff.mpr hdigits)
  have hrange : headerRange? header = none :=
    Option.eq_none_iff_forall_ne_some.mpr fun r hr => h _ (asks_range_iff.mpr hr)
  rw [loopCount, htimes, hrange]

/-- The count of a header is the number of the rounds that it asks for. -/
structure Reckoned (header : List Char) : Prop where
  count : ∀ n, loopCount header = .ok n ↔ ∃ rounds, Asks (collapse header) rounds ∧ rounds.Denotes n
  unbounded : ∀ rounds, Asks (collapse header) rounds → (∀ n, ¬ rounds.Denotes n) →
    ∃ e, loopCount header = .error e ∧ e.code = 205
  malformed : (∀ rounds, ¬ Asks (collapse header) rounds) →
    ∃ e, loopCount header = .error e ∧ e.code = 204
  inWords : ∀ r a b n, Asks (collapse header) (.range r) → integer? r.first = some a →
    integer? r.last = some b → loopCount header = .ok n → ExactInWords a b r.inclusive n

/-- **Loop headers denote their arithmetic.**  A header of one of the two forms counts the rounds it
asks for, computed in words as over the integers, or it is refused with 205 if there is no such
count; a header of neither form is refused with 204. -/
theorem loopCount_exact (header : List Char) : Reckoned header := by
  refine ⟨fun n => ⟨fun hn => ?_, ?_⟩, fun rounds hasks hnone => ?_, fun hno => ?_, ?_⟩
  · by_cases hform : ∃ rounds, Asks (collapse header) rounds
    · obtain ⟨rounds, hasks⟩ := hform
      exact ⟨rounds, hasks, ((settles_of_asks hasks).ok n).mp hn⟩
    · rw [loopCount_of_no_form (not_exists.mp hform)] at hn
      cases hn
  · rintro ⟨rounds, hasks, hn⟩
    exact ((settles_of_asks hasks).ok n).mpr hn
  · have hsettles := settles_of_asks hasks
    cases hresult : loopCount header with
    | ok n => exact absurd ((hsettles.ok n).mp hresult) (hnone n)
    | error e => exact ⟨e, rfl, hsettles.error e hresult⟩
  · exact ⟨_, loopCount_of_no_form hno, rfl⟩
  · intro r a b n hasks ha hb hn
    cases ((settles_of_asks hasks).ok n).mp hn with
    | range ha' hb' hfita hfitb hlength hpos hmax =>
        obtain rfl := Option.some.inj (ha.symm.trans ha')
        obtain rfl := Option.some.inj (hb.symm.trans hb')
        exact exactInWords hfita hfitb hlength hpos hmax

/-- The longest range that can be counted ends where the signed words start to end, and one more
integer is too many. -/
example : loopCount "for i in -9223372036854775808 ... -2".toList = .ok 9223372036854775807 ∧
    loopCount "for i in -9223372036854775808 ... -1".toList =
      .error (.rangeTooLarge "for i in -9223372036854775808 ... -1") := by
  decide

end Script

end GemGrid
