import EntityQuery.Decimal.Text
import EntityQuery.Proofs.Scalar.Digits

/-!
# The text of a decimal reads back

A decimal is written with all of its digits, as many after the point as its scale says.  The reader
takes them one by one, and never rounds: what it has read before a digit is at most the coefficient,
which is in range, and the scale is reached with the last digit.  Only the sign of a zero is lost,
to which `==` is blind.
-/

namespace EntityQuery

namespace Decimal

open Digits (IsRun)

variable {digits rest : List Char} {coefficient scale : Nat}

/-! ## Scanning -/

theorem ofDigitChars_cons (c : Char) (digits : List Char) (coefficient : Nat) :
    Nat.ofDigitChars 10 (c :: digits) coefficient =
      Nat.ofDigitChars 10 digits (10 * coefficient + digitValue c) :=
  Nat.ofDigitChars_cons

theorem le_ofDigitChars (digits : List Char) (coefficient : Nat) :
    coefficient ≤ Nat.ofDigitChars 10 digits coefficient := by
  induction digits generalizing coefficient with
  | nil => exact Nat.le_refl _
  | cons c digits ih =>
      have hlater := ih (10 * coefficient + digitValue c)
      rw [ofDigitChars_cons]
      exact Nat.le_trans (by omega) hlater

/-- Digits before the point are all taken. -/
theorem scan?_whole (hrun : IsRun digits)
    (hrange : Nat.ofDigitChars 10 digits coefficient < coefficientLimit) (started wide : Bool)
    (rest : List Char) :
    ∃ wide', scan? ⟨coefficient, 0⟩ false started wide (digits ++ rest) =
      scan? ⟨Nat.ofDigitChars 10 digits coefficient, 0⟩ false (started || !digits.isEmpty) wide'
        rest := by
  induction digits generalizing coefficient started wide with
  | nil => exact ⟨wide, by simp⟩
  | cons c digits ih =>
      obtain ⟨hc, hdigits⟩ := List.forall_mem_cons.1 hrun
      rw [ofDigitChars_cons] at hrange ⊢
      have hnext : 10 * coefficient + digitValue c < coefficientLimit :=
        Nat.lt_of_le_of_lt (le_ofDigitChars digits _) hrange
      obtain ⟨wide', hlater⟩ := ih hdigits hrange true
        (wide || wideCoefficient ≤ 10 * coefficient + digitValue c)
      refine ⟨wide', ?_⟩
      rw [List.cons_append, scan?]
      simpa [hc, hnext] using hlater

/-- Digits after the point are all taken, up to the greatest scale. -/
theorem scan?_fraction (hrun : IsRun digits)
    (hrange : Nat.ofDigitChars 10 digits coefficient < coefficientLimit)
    (hscale : scale + digits.length ≤ maxScale) (wide : Bool) :
    scan? ⟨coefficient, scale⟩ true true wide digits =
      some ⟨Nat.ofDigitChars 10 digits coefficient, scale + digits.length⟩ := by
  induction digits generalizing coefficient scale wide with
  | nil => rfl
  | cons c digits ih =>
      obtain ⟨hc, hdigits⟩ := List.forall_mem_cons.1 hrun
      rw [ofDigitChars_cons] at hrange ⊢
      rw [List.length_cons] at hscale ⊢
      have hnext : 10 * coefficient + digitValue c < coefficientLimit :=
        Nat.lt_of_le_of_lt (le_ofDigitChars digits _) hrange
      have hrest : digits.length = 0 ∨ scale + 1 < maxScale := by omega
      rw [scan?]
      rcases hrest with hrest | hrest
      · -- The last digit reaches the greatest scale or stays below it.
        obtain rfl := List.length_eq_zero_iff.1 hrest
        simp [hc, hnext, scan?, Amount.roundAt?]
      · have hscale' : scale + 1 + digits.length ≤ maxScale := by omega
        have hlater := ih hdigits hrange hscale'
          (wide || wideCoefficient ≤ 10 * coefficient + digitValue c)
        have hbelow : ¬ maxScale ≤ scale + 1 := by omega
        simpa [hc, hnext, hbelow, Nat.add_assoc, Nat.add_comm 1] using hlater

/-- The point parts the digits of the fraction from those of the whole number. -/
theorem scan?_digits (hrun : IsRun digits) (hrange : Digits.value digits < coefficientLimit)
    (hscale : scale ≤ maxScale) (hlength : scale < digits.length) :
    scan? ⟨0, 0⟩ false false false (digits.take (digits.length - scale) ++
        if scale = 0 then [] else '.' :: digits.drop (digits.length - scale)) =
      some ⟨Digits.value digits, scale⟩ := by
  obtain ⟨whole, hwhole⟩ : ∃ whole, whole = digits.take (digits.length - scale) := ⟨_, rfl⟩
  obtain ⟨fraction, hfraction⟩ : ∃ fraction, fraction = digits.drop (digits.length - scale) :=
    ⟨_, rfl⟩
  have hdigits : digits = whole ++ fraction := by
    rw [hwhole, hfraction, List.take_append_drop]
  have hvalue :
      Nat.ofDigitChars 10 fraction (Nat.ofDigitChars 10 whole 0) = Digits.value digits := by
    rw [Digits.value, hdigits, Nat.ofDigitChars_append]
  have hfractionLength : fraction.length = scale := by
    rw [hfraction, List.length_drop]
    omega
  have hne : whole ≠ [] := by
    intro h
    rw [hdigits, h, List.nil_append] at hlength
    omega
  rw [← hwhole, ← hfraction]
  rw [hdigits, Digits.isRun_append] at hrun
  -- The digits of the whole number alone are in range, as a number only grows with its digits.
  have hwholeRange : Nat.ofDigitChars 10 whole 0 < coefficientLimit := by
    have hle := le_ofDigitChars fraction (Nat.ofDigitChars 10 whole 0)
    omega
  obtain ⟨wide, hscan⟩ := scan?_whole hrun.1 hwholeRange false false
    (if scale = 0 then [] else '.' :: fraction)
  have hstarted : (false || !whole.isEmpty) = true := by simp [hne]
  rw [hscan, hstarted]
  by_cases hzero : scale = 0
  · have hempty : fraction = [] := List.length_eq_zero_iff.1 (hfractionLength.trans hzero)
    rw [if_pos hzero, ← hvalue, hempty, hzero]
    rfl
  · have hpoint : scan? ⟨Nat.ofDigitChars 10 whole 0, 0⟩ false true wide ('.' :: fraction) =
        scan? ⟨Nat.ofDigitChars 10 whole 0, 0⟩ true true wide fraction := by
      rw [scan?]
      rfl
    rw [if_neg hzero, hpoint, scan?_fraction hrun.2 (hvalue.symm ▸ hrange) (by omega), hvalue,
      hfractionLength, Nat.zero_add]

theorem exists_digit_of_take (hrun : IsRun digits) (hlength : scale < digits.length) :
    ∃ c rest, c.isDigit = true ∧ digits.take (digits.length - scale) = c :: rest := by
  cases digits with
  | nil => cases hlength
  | cons c digits =>
      obtain ⟨count, hcount⟩ : ∃ count, (c :: digits).length - scale = count + 1 :=
        ⟨(c :: digits).length - scale - 1, by omega⟩
      exact ⟨c, digits.take count, hrun c List.mem_cons_self, by rw [hcount, List.take_succ_cons]⟩

/-! ## Reading -/

/-- The same amount at the same scale, where zero has no sign. -/
def unsignedZero (d : Decimal) : Decimal :=
  { d with negative := d.negative && d.coefficient ≠ 0 }

theorem equal_unsignedZero (d : Decimal) : (d == d.unsignedZero) = true := by
  have hsigned : d.unsignedZero.signed = d.signed := by
    unfold signed unsignedZero
    by_cases hzero : d.coefficient = 0 <;> simp [hzero]
  change sameAmount d d.unsignedZero = true
  rw [sameAmount, hsigned]
  exact decide_eq_true rfl

theorem unsignedZero_unsignedZero (d : Decimal) : d.unsignedZero.unsignedZero = d.unsignedZero := by
  simp [unsignedZero]

theorem readPlain?_of_isDigit {c : Char} (hc : c.isDigit = true) (rest : List Char) :
    readPlain? (c :: rest) = readSigned? false (c :: rest) := by
  unfold readPlain?
  split
  · rename_i heq
    cases heq
    cases hc
  · rename_i heq
    cases heq
    cases hc
  · rfl

theorem read?_text (d : Decimal) : read? d.text = some d.unsignedZero := by
  obtain ⟨digits, hdigits⟩ : ∃ digits, digits =
      List.replicate (d.scale + 1 - (Nat.toDigits 10 d.coefficient).length) '0' ++
        Nat.toDigits 10 d.coefficient := ⟨_, rfl⟩
  have hrun : IsRun digits := by
    rw [hdigits]
    exact Digits.isRun_append.2 ⟨Digits.isRun_replicate_zero _, Digits.isRun_toDigits _⟩
  have hvalue : Digits.value digits = d.coefficient := by
    rw [hdigits, Digits.value_replicate_zero_append, Digits.value_toDigits]
  have hlength : d.scale < digits.length := by
    rw [hdigits, List.length_append, List.length_replicate]
    omega
  obtain ⟨unsigned, hunsigned⟩ : ∃ unsigned, unsigned = digits.take (digits.length - d.scale) ++
      if d.scale = 0 then [] else '.' :: digits.drop (digits.length - d.scale) := ⟨_, rfl⟩
  have hscan := scan?_digits hrun (hvalue ▸ d.coefficient_lt) d.scale_le hlength
  rw [← hunsigned, hvalue] at hscan
  have hsigned : ∀ negative, readSigned? negative unsigned =
      of? (negative && d.coefficient ≠ 0) d.coefficient d.scale := by
    intro negative
    rw [readSigned?, hscan]
    rfl
  have htext : d.text = (if d.negative then ['-'] else []) ++ unsigned := by
    rw [hunsigned, hdigits, text, List.append_assoc]
  have hof : of? (d.negative && d.coefficient ≠ 0) d.coefficient d.scale = some d.unsignedZero :=
    dif_pos ⟨d.coefficient_lt, d.scale_le⟩
  have hplain : readPlain? d.text = some d.unsignedZero := by
    rw [htext, ← hof, ← hsigned]
    cases d.negative with
    | true => rfl
    | false =>
        obtain ⟨c, rest, hc, hcons⟩ := exists_digit_of_take hrun hlength
        rw [hunsigned, hcons]
        exact readPlain?_of_isDigit hc _
  rw [read?, hplain]
  rfl

end Decimal

end EntityQuery
