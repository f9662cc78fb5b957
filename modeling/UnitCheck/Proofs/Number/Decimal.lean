import Mathlib.Data.List.TakeWhile
import UnitCheck.Number.Decimal
import UnitCheck.Proofs.Number.Notation

/-!
  Decimals and their texts.

  A decimal without a sign is written with digits and maybe a fraction, and what is written reads
  back as the same coefficient and the same scale (`read_text`), since all its digits fit. A text
  that starts with a digit is read as a decimal without a sign.
-/

namespace UnitCheck.Number

theorem le_ofDigitChars (cs : List Char) (n : Nat) : n ≤ Nat.ofDigitChars 10 cs n := by
  rw [Nat.ofDigitChars_eq_ofDigitChars_zero]
  exact (Nat.le_mul_of_pos_left n (Nat.pow_pos (by decide))).trans (Nat.le_add_right _ _)

namespace Decimal

/-! ## Reading digits -/

/-- Digits that all fit are appended to the coefficient. -/
theorem readFraction_of_fits {cs : List Char} (hcs : ∀ c ∈ cs, c.isDigit = true) {coefficient
    scale : Nat} (hscale : scale + cs.length ≤ maxScale)
    (hfits : Nat.ofDigitChars 10 cs coefficient < coefficientBound) :
    readFraction coefficient scale cs =
      some (Nat.ofDigitChars 10 cs coefficient, scale + cs.length) := by
  induction cs generalizing coefficient scale with
  | nil => rfl
  | cons c cs ih =>
    have hdigit : c.isDigit = true := hcs c List.mem_cons_self
    have hseparator : isSeparator c = false := by
      rw [isSeparator, decide_eq_false_iff_not]
      rintro rfl
      cases hdigit
    rw [List.length_cons] at hscale
    rw [Nat.ofDigitChars_cons] at hfits
    have hvalue : coefficient * 10 + digitValue c = 10 * coefficient + (c.toNat - '0'.toNat) := by
      rw [digitValue, Nat.mul_comm]
    -- Digits only make the coefficient greater, so it fits already after the first.
    have hnext : coefficient * 10 + digitValue c < coefficientBound := by
      rw [hvalue]
      exact (le_ofDigitChars cs _).trans_lt hfits
    rw [readFraction]
    simp only [hseparator, hdigit, Bool.false_eq_true, if_false, Bool.not_true]
    rw [if_neg (by omega), ih (fun d hd => hcs d (List.mem_cons_of_mem _ hd)) (by omega)
      (by rw [hvalue]; exact hfits), hvalue, Nat.ofDigitChars_cons, List.length_cons]
    congr 2
    omega

/-- An unsigned number is read by its parts. -/
theorem readUnsigned_parts {whole fraction : List Char} (hwhole : IsDigits whole)
    (hfraction : IsFraction fraction) (hscale : fraction.tail.length ≤ maxScale)
    (hfits : Nat.ofDigitChars 10 (whole ++ fraction.tail) 0 < coefficientBound) :
    readUnsigned (whole ++ fraction) =
      some (Nat.ofDigitChars 10 (whole ++ fraction.tail) 0, fraction.tail.length) := by
  have hall : ∀ c ∈ whole, (c.isDigit || isSeparator c) = true :=
    fun c hc => by rw [hwhole.2 c hc, Bool.true_or]
  have hfilter : whole.filter Char.isDigit = whole := List.filter_eq_self.2 hwhole.2
  have hhead : ∀ rest, (whole ++ rest).head?.any Char.isDigit = true := by
    intro rest
    cases whole with
    | nil => exact absurd rfl hwhole.1
    | cons c cs => simpa using hwhole.2 c List.mem_cons_self
  have hle : Nat.ofDigitChars 10 whole 0 < coefficientBound := by
    rw [Nat.ofDigitChars_append] at hfits
    exact (le_ofDigitChars _ _).trans_lt hfits
  unfold readUnsigned
  rcases hfraction with rfl | ⟨digits, rfl, hdigits⟩
  -- nothing follows the digits
  · have hhead := hhead []
    rw [List.append_nil] at hhead ⊢
    have htake : whole.takeWhile (fun c => c.isDigit || isSeparator c) = whole :=
      List.takeWhile_eq_self_iff.2 hall
    have hdrop : whole.dropWhile (fun c => c.isDigit || isSeparator c) = [] :=
      List.dropWhile_eq_nil_iff.2 hall
    simp only [htake, hdrop, hfilter, hhead]
    rw [if_neg (by omega)]
    simp
  -- a point follows them, and all digits after it fit
  · rw [List.tail_cons] at hscale hfits ⊢
    rw [Nat.ofDigitChars_append] at hfits
    have htake : (whole ++ '.' :: digits).takeWhile (fun c => c.isDigit || isSeparator c) =
        whole := by
      rw [List.takeWhile_append_of_pos hall, List.takeWhile_cons_of_neg (by decide),
        List.append_nil]
    have hdrop : (whole ++ '.' :: digits).dropWhile (fun c => c.isDigit || isSeparator c) =
        '.' :: digits := by
      rw [List.dropWhile_append_of_pos hall, List.dropWhile_cons_of_neg (by decide)]
    simp only [htake, hdrop, hfilter, hhead]
    rw [if_neg (by omega), if_pos trivial, readFraction_of_fits hdigits.2 (by omega) hfits,
      Nat.ofDigitChars_append, Nat.zero_add]

/-! ## Writing -/

/-- The text of a decimal has the parts of a number without an exponent. -/
theorem magnitudeText_parts (a : Decimal) :
    ∃ whole fraction, a.magnitudeText = whole ++ fraction ∧ IsDigits whole ∧
      IsFraction fraction ∧ fraction.tail.length = a.scale ∧
        Nat.ofDigitChars 10 (whole ++ fraction.tail) 0 = a.coefficient := by
  have hdigits := isDigits_toDigits a.coefficient
  unfold magnitudeText
  dsimp only
  generalize hpadded : List.replicate (a.scale + 1 - (Nat.toDigits 10 a.coefficient).length) '0' ++
    Nat.toDigits 10 a.coefficient = padded
  -- The zeros leave at least one digit before the point.
  have hlength : a.scale < padded.length := by
    rw [← hpadded, List.length_append, List.length_replicate]
    omega
  have hall : IsDigits padded := hpadded ▸ hdigits.replicate_append _
  have hvalue : Nat.ofDigitChars 10 padded 0 = a.coefficient := by
    rw [← hpadded, ofDigitChars_replicate_append, Nat.ofDigitChars_ten_toDigits]
  refine ⟨_, _, rfl, hall.take (by omega), ?_⟩
  split
  · next hscale =>
    rw [hscale, Nat.sub_zero, List.take_length, List.tail_nil, List.append_nil]
    exact ⟨.inl rfl, rfl, hvalue⟩
  · next hscale =>
    refine ⟨.inr ⟨_, rfl, hall.drop (by omega)⟩, ?_, ?_⟩
    · rw [List.tail_cons, List.length_drop]
      omega
    · rw [List.tail_cons, List.take_append_drop, hvalue]

/-- A decimal without a sign is read back as it was. -/
theorem read_text {a : Decimal} (ha : a.negative = false) : read a.text = some a := by
  obtain ⟨whole, fraction, htext, hwhole, hfraction, hscale, hvalue⟩ := a.magnitudeText_parts
  have hread := readUnsigned_parts hwhole hfraction (hscale ▸ a.scale_le)
    (hvalue ▸ a.coefficient_lt)
  rw [hscale, hvalue] at hread
  have hplain : readPlain a.text = some a := by
    rw [text, ha]
    simp only [Bool.false_eq_true, if_false, List.nil_append]
    rw [htext, readPlain, splitSign_of_digits hwhole]
    dsimp only
    rw [hread]
    simp only [Option.bind_eq_bind, Option.bind_some, Bool.false_and]
    rw [ofParts?, dif_pos ⟨a.coefficient_lt, a.scale_le⟩, ← ha]
  rw [read, hplain, Option.some_or]

/-! ## Signs -/

theorem negative_of_ofParts? {negative : Bool} {coefficient scale : Nat} {a : Decimal}
    (h : ofParts? negative coefficient scale = some a) : a.negative = negative := by
  unfold ofParts? at h
  split at h
  · cases h
    rfl
  · cases h

theorem negative_of_readPlain {c : Char} {cs : List Char} (hc : c.isDigit = true) {a : Decimal}
    (h : readPlain (c :: cs) = some a) : a.negative = false := by
  have hdigits : IsDigits [c] := ⟨by simp, by simpa using hc⟩
  rw [← List.singleton_append, readPlain, splitSign_of_digits hdigits] at h
  dsimp only at h
  obtain ⟨⟨coefficient, scale⟩, -, h⟩ := Option.bind_eq_some_iff.1 h
  exact negative_of_ofParts? h

/-- What starts with a digit has no sign. -/
theorem negative_of_read {c : Char} {cs : List Char} (hc : c.isDigit = true) {a : Decimal}
    (h : read (c :: cs) = some a) : a.negative = false := by
  rw [read] at h
  rcases Option.or_eq_some_iff.1 h with h | ⟨-, h⟩
  · exact negative_of_readPlain hc h
  -- Moving the point keeps the sign of the base.
  · unfold readScientific at h
    dsimp only at h
    split at h
    · cases h
    · obtain ⟨base, hbase, h⟩ := Option.bind_eq_some_iff.1 h
      have hsign : base.negative = false := by
        rw [List.takeWhile_cons, if_pos] at hbase
        · exact negative_of_readPlain hc hbase
        · rw [Bool.not_eq_true', decide_eq_false_iff_not]
          rintro (rfl | rfl) <;> cases hc
      split at h
      · obtain ⟨n, -, h⟩ := Option.bind_eq_some_iff.1 h
        unfold shiftLeft at h
        split at h
        · cases h
        · exact (negative_of_ofParts? h).trans hsign
      · obtain ⟨n, -, h⟩ := Option.bind_eq_some_iff.1 h
        unfold shiftRight at h
        split at h
        · exact (negative_of_ofParts? h).trans hsign
        · split at h
          · cases h
          · exact (negative_of_ofParts? h).trans hsign

end Decimal

end UnitCheck.Number
