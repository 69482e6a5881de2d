import GemGrid.Report.Basic
import Mathlib.Algebra.Order.Ring.Nat
import Mathlib.Data.List.Basic

/-!
# What a fingerprint identifies

A fingerprint is the digest of a message, the two texts with a zero byte between them, and a host
that has kept a report under it takes the report for that of its two texts.  Two things could go
wrong: different messages could have one digest, or different texts one message.

* The digest is written out in full (`Sha256.hex_eq_iff`), so equal fingerprints of different
  messages are a collision of SHA-256.  Collisions exist, as there are more messages than digests;
  `Sha256.Collide` is therefore about two messages that are given.
* The bytes of a text determine it (`Sha256.utf8_injective`), so texts with one message are cuts of
  one longer text at a zero (`fingerprintBytes_eq_iff`).

A text may hold zeros of its own, and then the longer text can be cut at another place.  Which cut is
meant can be told from the number of zeros before it (`Text.eq_of_append_cons_eq`), which the message
does not say.  `identified_iff` puts this together: two texts are the only ones with their message
exactly if neither of them holds a zero.
-/

namespace GemGrid

namespace Sha256

/-! ## Bytes of a text -/

theorem utf8_append (s t : String) : utf8 (s ++ t) = utf8 s ++ utf8 t := by
  rw [utf8, String.toList_append, List.flatMap_append, utf8, utf8]

/-- The bytes of a text determine it. -/
theorem utf8_injective : Function.Injective utf8 := by
  intro s t h
  have hbytes : s.toList.utf8Encode = t.toList.utf8Encode := congrArg List.toByteArray h
  rwa [← String.toByteArray_ofList, ← String.toByteArray_ofList, String.ofList_toList,
    String.ofList_toList, String.toByteArray_inj] at hbytes

/-! ## Hexadecimal digits -/

theorem digitChar_inj {m n : Nat} (hm : m < 16) (hn : n < 16)
    (h : Nat.digitChar m = Nat.digitChar n) : m = n := by
  have hall : ∀ m < 16, ∀ n < 16, Nat.digitChar m = Nat.digitChar n → m = n := by decide
  exact hall m hm n hn h

theorem length_hexDigits (count n : Nat) : (hexDigits count n).length = count := by
  induction count generalizing n with
  | zero => rfl
  | succ count ih => rw [hexDigits, List.length_append, ih, List.length_singleton]

/-- The last digits of a number determine it up to what stands in front of them. -/
theorem mod_eq_of_hexDigits {count m n : Nat} (h : hexDigits count m = hexDigits count n) :
    m % 16 ^ count = n % 16 ^ count := by
  induction count generalizing m n with
  | zero => rw [Nat.pow_zero, Nat.mod_one, Nat.mod_one]
  | succ count ih =>
      obtain ⟨hfront, hlast⟩ := List.append_inj' h rfl
      have hdigit : m % 16 = n % 16 :=
        digitChar_inj (Nat.mod_lt _ (by omega)) (Nat.mod_lt _ (by omega)) (List.cons.inj hlast).1
      calc m % 16 ^ (count + 1)
          = m % 16 + 16 * (m / 16 % 16 ^ count) := by rw [Nat.pow_succ', Nat.mod_mul]
        _ = n % 16 + 16 * (n / 16 % 16 ^ count) := by rw [hdigit, ih hfront]
        _ = n % 16 ^ (count + 1) := by rw [Nat.pow_succ', Nat.mod_mul]

theorem hexWord_injective : Function.Injective hexWord := by
  intro v w h
  have hmod := mod_eq_of_hexDigits h
  have hv : v.toNat < 16 ^ 8 := v.toNat_lt
  have hw : w.toNat < 16 ^ 8 := w.toNat_lt
  rw [Nat.mod_eq_of_lt hv, Nat.mod_eq_of_lt hw] at hmod
  exact UInt32.toNat_inj.mp hmod

theorem length_flatMap_hexWord (ws : List UInt32) : (ws.flatMap hexWord).length = 8 * ws.length := by
  induction ws with
  | nil => rfl
  | cons w ws ih =>
      rw [List.flatMap_cons, List.length_append, ih, hexWord, length_hexDigits, List.length_cons]
      omega

/-- Words that are written one behind the other are found again, as each has its eight digits. -/
theorem flatMap_hexWord_injective : Function.Injective (List.flatMap hexWord) := by
  intro vs ws h
  have hlength : vs.length = ws.length := by
    have hdigits := congrArg List.length h
    rw [length_flatMap_hexWord, length_flatMap_hexWord] at hdigits
    omega
  induction vs generalizing ws with
  | nil => exact (List.length_eq_zero_iff.mp hlength.symm).symm
  | cons v vs ih =>
      obtain ⟨w, ws, rfl⟩ := List.exists_cons_of_length_eq_add_one hlength.symm
      have hword : (hexWord v).length = (hexWord w).length := by
        rw [hexWord, hexWord, length_hexDigits, length_hexDigits]
      obtain ⟨hfirst, hrest⟩ := List.append_inj h hword
      rw [hexWord_injective hfirst, ih hrest (Nat.succ.inj hlength)]

theorem words_injective : Function.Injective State.words := by
  intro s t h
  cases s
  cases t
  simpa [State.words] using h

/-- A digest that is written out is as good as the digest. -/
theorem hex_eq_iff {message message' : List UInt8} :
    hex message = hex message' ↔ digest message = digest message' := by
  refine ⟨fun h => ?_, fun h => by rw [hex, hex, h]⟩
  have hdigits : (digest message).words.flatMap hexWord = (digest message').words.flatMap hexWord :=
    String.ofList_injective h
  exact words_injective (flatMap_hexWord_injective hdigits)

/-- Two messages are different and have one digest. -/
def Collide (message message' : List UInt8) : Prop :=
  message ≠ message' ∧ digest message = digest message'

end Sha256

/-! ## Cuts of a text -/

/-- Two cuts of a text at one character are the same if it stands as often before the one as before
the other. -/
theorem Text.eq_of_append_cons_eq {b : Char} {as bs cs ds : List Char}
    (hcount : as.count b = cs.count b) (h : as ++ b :: bs = cs ++ b :: ds) :
    as = cs ∧ bs = ds := by
  induction as generalizing cs with
  | nil =>
      cases cs with
      | nil => exact ⟨rfl, (List.cons.inj h).2⟩
      | cons c cs =>
          -- the break in front would be one occurrence more on the right
          obtain ⟨rfl, -⟩ := List.cons.inj h
          rw [List.count_nil, List.count_cons_self] at hcount
          omega
  | cons a as ih =>
      cases cs with
      | nil =>
          obtain ⟨rfl, -⟩ := List.cons.inj h
          rw [List.count_nil, List.count_cons_self] at hcount
          omega
      | cons c cs =>
          obtain ⟨rfl, hrest⟩ := List.cons.inj h
          rw [List.count_cons, List.count_cons, Nat.add_right_cancel_iff] at hcount
          obtain ⟨rfl, rfl⟩ := ih hcount hrest
          exact ⟨rfl, rfl⟩

/-! ## Messages -/

section Messages

variable {mapText scriptText mapText' scriptText' : String}

theorem fingerprintBytes_eq (mapText scriptText : String) :
    fingerprintBytes mapText scriptText =
      Sha256.utf8 (String.ofList (mapText.toList ++ '\x00' :: scriptText.toList)) := by
  have hjoined : String.ofList (mapText.toList ++ '\x00' :: scriptText.toList) =
      mapText ++ "\x00" ++ scriptText := by
    rw [← String.toList_inj]
    simp
  rw [hjoined, Sha256.utf8_append, Sha256.utf8_append]
  rfl

/-- Texts have one message if they are cuts of one text at a zero. -/
theorem fingerprintBytes_eq_iff :
    fingerprintBytes mapText scriptText = fingerprintBytes mapText' scriptText' ↔
      mapText.toList ++ '\x00' :: scriptText.toList =
        mapText'.toList ++ '\x00' :: scriptText'.toList := by
  rw [fingerprintBytes_eq, fingerprintBytes_eq, Sha256.utf8_injective.eq_iff, String.ofList_inj]

/-- Two texts are the only ones with their message. -/
def Identified (mapText scriptText : String) : Prop :=
  ∀ mapText' scriptText',
    fingerprintBytes mapText' scriptText' = fingerprintBytes mapText scriptText →
      mapText' = mapText ∧ scriptText' = scriptText

/-- The number of zeros in the map tells texts with one message apart. -/
theorem eq_iff_count_eq
    (h : fingerprintBytes mapText' scriptText' = fingerprintBytes mapText scriptText) :
    mapText' = mapText ∧ scriptText' = scriptText ↔
      mapText'.toList.count '\x00' = mapText.toList.count '\x00' := by
  constructor
  · rintro ⟨rfl, -⟩
    rfl
  · intro hcount
    obtain ⟨hmap, hscript⟩ := Text.eq_of_append_cons_eq hcount (fingerprintBytes_eq_iff.mp h)
    exact ⟨String.toList_inj.mp hmap, String.toList_inj.mp hscript⟩

/-- Without zeros the texts can be cut apart in one way only. -/
theorem identified_of_not_mem (hmap : '\x00' ∉ mapText.toList)
    (hscript : '\x00' ∉ scriptText.toList) : Identified mapText scriptText := by
  intro mapText' scriptText' h
  apply (eq_iff_count_eq h).mpr
  have hcount := congrArg (List.count '\x00') (fingerprintBytes_eq_iff.mp h)
  rw [List.count_append, List.count_append, List.count_cons_self, List.count_cons_self,
    List.count_eq_zero.mpr hmap, List.count_eq_zero.mpr hscript] at hcount
  rw [List.count_eq_zero.mpr hmap]
  omega

/-- A zero in the map could be the one between the texts. -/
theorem not_mem_map_of_identified (h : Identified mapText scriptText) :
    '\x00' ∉ mapText.toList := by
  intro hmem
  obtain ⟨before, behind, hsplit⟩ := List.append_of_mem hmem
  have hmessage : fingerprintBytes (String.ofList before)
      (String.ofList (behind ++ '\x00' :: scriptText.toList)) =
        fingerprintBytes mapText scriptText := by
    rw [fingerprintBytes_eq_iff, String.toList_ofList, String.toList_ofList, hsplit,
      List.append_assoc, List.cons_append]
  obtain ⟨hmap, -⟩ := h _ _ hmessage
  have hlength := congrArg List.length hsplit
  rw [← hmap, String.toList_ofList, List.length_append, List.length_cons] at hlength
  omega

/-- A zero in the script could be the one between the texts. -/
theorem not_mem_script_of_identified (h : Identified mapText scriptText) :
    '\x00' ∉ scriptText.toList := by
  intro hmem
  obtain ⟨before, behind, hsplit⟩ := List.append_of_mem hmem
  have hmessage : fingerprintBytes (String.ofList (mapText.toList ++ '\x00' :: before))
      (String.ofList behind) = fingerprintBytes mapText scriptText := by
    rw [fingerprintBytes_eq_iff, String.toList_ofList, String.toList_ofList, hsplit,
      List.append_assoc, List.cons_append]
  obtain ⟨-, hscript⟩ := h _ _ hmessage
  have hlength := congrArg List.length hsplit
  rw [← hscript, String.toList_ofList, List.length_append, List.length_cons] at hlength
  omega

/-! ## Reports -/

/-- Every report has the fingerprint of its texts. -/
theorem Reports.fingerprint_eq {rules : MapRules} {limits : Limits} {r : Report}
    (h : Reports rules limits mapText scriptText r) :
    r.fingerprint = fingerprint mapText scriptText := by
  obtain ⟨moves, hmoves⟩ := h
  unfold validateWithin at hmoves
  split at hmoves
  · obtain rfl := Option.some.inj hmoves
    rfl
  · split at hmoves
    · obtain rfl := Option.some.inj hmoves
      rfl
    · split at hmoves
      · obtain rfl := Option.some.inj hmoves
        rfl
      · obtain ⟨o, -, rfl⟩ := Option.map_eq_some_iff.mp hmoves
        rfl

/-- Reports with one fingerprint are about texts with one message, or the messages collide. -/
theorem Reports.message_eq_or_collide {rules rules' : MapRules} {limits limits' : Limits}
    {r r' : Report} (hr : Reports rules limits mapText scriptText r)
    (hr' : Reports rules' limits' mapText' scriptText' r') (h : r'.fingerprint = r.fingerprint) :
    fingerprintBytes mapText' scriptText' = fingerprintBytes mapText scriptText ∨
      Sha256.Collide (fingerprintBytes mapText' scriptText')
        (fingerprintBytes mapText scriptText) := by
  rw [hr.fingerprint_eq, hr'.fingerprint_eq] at h
  by_cases hmessage :
      fingerprintBytes mapText' scriptText' = fingerprintBytes mapText scriptText
  · exact .inl hmessage
  · exact .inr ⟨hmessage, Sha256.hex_eq_iff.mp h⟩

end Messages

/-- **What a fingerprint identifies.**  Two texts are the only ones with their message exactly if
neither of them holds a zero; among texts with one message, the zeros in the map tell them apart.  A
report that has the fingerprint of identified texts is about them, unless SHA-256 has one digest for
its message and theirs. -/
theorem identified_iff (mapText scriptText : String) :
    (Identified mapText scriptText ↔
      '\x00' ∉ mapText.toList ∧ '\x00' ∉ scriptText.toList) ∧
    (∀ mapText' scriptText',
      fingerprintBytes mapText' scriptText' = fingerprintBytes mapText scriptText →
        (mapText' = mapText ∧ scriptText' = scriptText ↔
          mapText'.toList.count '\x00' = mapText.toList.count '\x00')) ∧
    (Identified mapText scriptText → ∀ rules limits r rules' limits' mapText' scriptText' r',
      Reports rules limits mapText scriptText r →
      Reports rules' limits' mapText' scriptText' r' → r'.fingerprint = r.fingerprint →
        (mapText' = mapText ∧ scriptText' = scriptText) ∨
          Sha256.Collide (fingerprintBytes mapText' scriptText')
            (fingerprintBytes mapText scriptText)) := by
  refine ⟨⟨fun h => ⟨not_mem_map_of_identified h, not_mem_script_of_identified h⟩,
    fun h => identified_of_not_mem h.1 h.2⟩, fun _ _ h => eq_iff_count_eq h, ?_⟩
  intro hidentified rules limits r rules' limits' mapText' scriptText' r' hr hr' h
  exact (hr.message_eq_or_collide hr' h).imp_left (hidentified mapText' scriptText')

/-- Texts with characters of one, two, three and four bytes, and with line breaks of all kinds. -/
theorem identified_iff_wide_characters :
    Identified "→\té\t♦\r\n\uFEFF" "moveForward() // 😀\rturnLeft()\n" :=
  (identified_iff _ _).1.mpr (by decide)

/-- A script that fails and one that passes, each on its own map, with one message.  A zero in a
comment and a zero in a cell are both allowed. -/
theorem not_identified_zero_in_comment :
    let mapText := "→\t"
    let scriptText := "moveForward()//\x00moveForward()"
    let mapText' := "→\t\x00moveForward()//"
    let scriptText' := "moveForward()"
    fingerprintBytes mapText scriptText = fingerprintBytes mapText' scriptText' ∧
      mapText ≠ mapText' ∧ scriptText ≠ scriptText' ∧
      (validate {} {} mapText scriptText).map (·.status) = some .failure ∧
      (validate {} {} mapText' scriptText').map (·.status) = some .success := by
  intro mapText scriptText mapText' scriptText'
  refine ⟨?_, by decide, by decide, ?_, ?_⟩
  · rw [fingerprintBytes_eq_iff]
    decide
  · decide +kernel
  · decide +kernel

end GemGrid
