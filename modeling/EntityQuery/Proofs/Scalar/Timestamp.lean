import EntityQuery.Timestamp.Text
import EntityQuery.Proofs.Scalar.Digits

/-!
# The text of a point in time reads back

The written form is one of many that the reader takes: all numbers have their full width, nothing is
blank, and the offset is zero.  So each part is read up to the character that ends it, and the parts
are put together as they were.
-/

namespace EntityQuery

open Digits (IsRun)

/-! ## Dates -/

namespace Date

variable {rest : List Char}

theorem readYear?_of_run {digits : List Char} (hrun : IsRun digits) (hne : digits ≠ [])
    (rest : List Char) : readYear? (digits ++ rest) =
      (Digits.readAtMost? 4 (digits ++ rest)).map fun (n, rest) => ((n : Int), rest) := by
  cases digits with
  | nil => exact absurd rfl hne
  | cons c digits =>
      have hc : c.isDigit = true := hrun c List.mem_cons_self
      rw [List.cons_append]
      unfold readYear?
      split
      · rename_i heq
        cases heq
        cases hc
      · rename_i heq
        cases heq
        cases hc
      · rfl

/-- The digits of a year outside of 0 to 9999. -/
def longYearDigits (year : Int) : List Char :=
  List.replicate (4 - (Nat.toDigits 10 year.natAbs).length) '0' ++ Nat.toDigits 10 year.natAbs

theorem read?_longYearDigits (year : Int) (hrest : Digits.Stops rest) :
    Digits.read? (longYearDigits year ++ rest) = some (year.natAbs, rest) := by
  have hrun : IsRun (longYearDigits year) :=
    Digits.isRun_append.2 ⟨Digits.isRun_replicate_zero _, Digits.isRun_toDigits _⟩
  have hne : longYearDigits year ≠ [] :=
    List.append_ne_nil_of_right_ne_nil _ Nat.toDigits_ne_nil
  rw [Digits.read?_append hrun hne hrest, longYearDigits, Digits.value_replicate_zero_append,
    Digits.value_toDigits]

/-- A year is written without blanks in front and is read up to what follows. -/
theorem readYear?_yearText (year : Int) (hrest : Digits.Stops rest) :
    readYear? (skipBlanks (yearText year ++ rest)) = some (year, rest) := by
  unfold yearText
  by_cases hshort : 0 ≤ year ∧ year ≤ 9999
  · have hrun := Digits.isRun_padded 4 year.toNat
    have hne := Digits.padded_ne_nil 3 year.toNat
    rw [if_pos hshort, skipBlanks_run hrun hne, readYear?_of_run hrun hne,
      Digits.readAtMost?_padded (by omega)]
    simp only [Option.map_some, Int.toNat_of_nonneg hshort.1]
  · rw [if_neg hshort]
    change
      readYear? (skipBlanks ((if year < 0 then '-' else '+') :: longYearDigits year ++ rest)) = _
    by_cases hnegative : year < 0
    · rw [if_pos hnegative, List.cons_append, skipBlanks_cons rfl]
      rw [readYear?, read?_longYearDigits year hrest]
      simp only [Option.map_some, Option.some.injEq, Prod.mk.injEq, and_true]
      omega
    · rw [if_neg hnegative, List.cons_append, skipBlanks_cons rfl]
      rw [readYear?, read?_longYearDigits year hrest]
      simp only [Option.map_some, Option.some.injEq, Prod.mk.injEq, and_true]
      omega

theorem month_day_lt (d : Date) : d.month < 10 ^ 2 ∧ d.day < 10 ^ 2 := by
  have hdays : daysInMonth d.year d.month ≤ 31 := by
    unfold daysInMonth
    split
    · split <;> decide
    · split <;> decide
  obtain ⟨-, ⟨-, hmonth⟩, -, hday⟩ := d.isDate
  omega

theorem readFront?_text (d : Date) (rest : List Char) :
    readFront? (d.text ++ rest) = some (d, rest) := by
  obtain ⟨hmonth, hday⟩ := d.month_day_lt
  have htext : d.text ++ rest = yearText d.year ++ ('-' :: (Digits.padded 2 d.month ++
      ('-' :: (Digits.padded 2 d.day ++ rest)))) := by
    simp [text]
  have hstops : Digits.Stops ('-' :: (Digits.padded 2 d.month ++
      ('-' :: (Digits.padded 2 d.day ++ rest)))) := Digits.stops_cons rfl
  have hyear := readYear?_yearText d.year hstops
  have hdate : of? d.year d.month d.day = some d := dif_pos d.isDate
  rw [htext, readFront?, hyear]
  simp only [Option.bind_eq_bind, Option.bind_some, expect?_skipBlanks_cons (c := '-') rfl,
    readAtMost?_skipBlanks_padded hmonth, readAtMost?_skipBlanks_padded hday, hdate]
  rfl

end Date

/-! ## Times of day -/

namespace Timestamp

theorem fractionText_eq (nano : Nat) : fractionText nano = [] ∧ nano = 0 ∨
    ∃ width, width < 9 ∧ nano % tenTo (8 - width) = 0 ∧
      fractionText nano = '.' :: Digits.padded (width + 1) (nano / tenTo (8 - width)) := by
  unfold fractionText
  by_cases hzero : nano = 0
  · exact .inl ⟨if_pos hzero, hzero⟩
  · rw [if_neg hzero]
    by_cases hmilli : nano % 1000000 = 0
    · exact .inr ⟨2, by decide, hmilli, if_pos hmilli⟩
    · rw [if_neg hmilli]
      by_cases hmicro : nano % 1000 = 0
      · exact .inr ⟨5, by decide, hmicro, if_pos hmicro⟩
      · rw [if_neg hmicro]
        refine .inr ⟨8, by decide, Nat.mod_one _, ?_⟩
        rw [show nano / tenTo (8 - 8) = nano from Nat.div_one _]

/-- Decimals are read with the digits that were left out. -/
theorem readFraction?_fractionText {nano : Nat} (h : nano < nanosPerSecond) :
    readFraction? (fractionText nano ++ ['Z']) = some (nano, ['Z']) := by
  rcases fractionText_eq nano with ⟨htext, rfl⟩ | ⟨width, hwidth, hzeros, htext⟩
  · rw [htext]
    rfl
  · obtain ⟨digits, hdigits⟩ :
        ∃ digits, digits = Digits.padded (width + 1) (nano / tenTo (8 - width)) := ⟨_, rfl⟩
    have hlength : digits.length = width + 1 := hdigits ▸ Digits.length_padded _ _
    have hrange : nano / tenTo (8 - width) < 10 ^ (width + 1) := by
      apply Nat.div_lt_of_lt_mul
      have hpower : tenTo (8 - width) * 10 ^ (width + 1) = nanosPerSecond := by
        rw [show tenTo (8 - width) = 10 ^ (8 - width) from rfl, ← Nat.pow_add,
          show 8 - width + (width + 1) = 9 by omega]
        rfl
      rwa [hpower]
    have hvalue : Digits.value digits * tenTo (9 - digits.length) = nano := by
      rw [hlength, Nat.add_sub_add_right 8 1 width, hdigits, Digits.value_padded hrange]
      exact Nat.div_mul_cancel (Nat.dvd_of_mod_eq_zero hzeros)
    have hsplit : Digits.splitAtMost 9 (digits ++ ['Z']) = (digits, ['Z']) :=
      Digits.splitAtMost_append (hdigits ▸ Digits.isRun_padded _ _) (by omega)
        (.inl (Digits.stops_cons rfl))
    rw [htext, ← hdigits, List.cons_append, readFraction?, hsplit]
    cases digits with
    | nil => cases hlength
    | cons c digits =>
        rw [← hvalue]
        rfl

/-- The second is sixty in a leap second and below sixty otherwise. -/
theorem second_and_nano (t : Timestamp) :
    (t.nano < nanosPerSecond ∧ t.nano / nanosPerSecond = 0) ∨
      (t.second % 60 = 59 ∧ t.nano / nanosPerSecond = 1 ∧
        t.nano % nanosPerSecond + nanosPerSecond = t.nano) := by
  obtain ⟨-, hnano, hleap⟩ := t.isTimeOfDay
  by_cases hbelow : t.nano < nanosPerSecond
  · exact .inl ⟨hbelow, Nat.div_eq_of_lt hbelow⟩
  · have hquotient : t.nano / nanosPerSecond = 1 :=
      Nat.div_eq_of_lt_le (by omega) (by omega)
    have hparts := Nat.mod_add_div t.nano nanosPerSecond
    rw [hquotient, Nat.mul_one] at hparts
    exact .inr ⟨hleap (by omega), hquotient, hparts⟩

/-- The time of a point in time, as its text has it. -/
def timeText (t : Timestamp) : List Char :=
  Digits.padded 2 (t.second / 3600) ++ (':' :: (Digits.padded 2 (t.second / 60 % 60) ++
    (':' :: (Digits.padded 2 (t.second % 60 + t.nano / nanosPerSecond) ++
      (fractionText (t.nano % nanosPerSecond) ++ ['Z'])))))

theorem readTime?_timeText (t : Timestamp) :
    readTime? t.timeText = some ((t.second, t.nano), ['Z']) := by
  obtain ⟨hday, -, -⟩ := t.isTimeOfDay
  have hdayLength : secondsPerDay = 86400 := rfl
  have hnano : t.nano % nanosPerSecond < nanosPerSecond := Nat.mod_lt _ (by decide)
  have hhour : t.second / 3600 < 24 := by omega
  have hminute : t.second / 60 % 60 < 60 := Nat.mod_lt _ (by decide)
  have hsecond : t.second % 60 + t.nano / nanosPerSecond ≤ 60 := by
    rcases t.second_and_nano with ⟨-, hquotient⟩ | ⟨hlast, hquotient, -⟩ <;> omega
  have hhourDigits : t.second / 3600 < 10 ^ (1 + 1) := by omega
  have hminuteDigits : t.second / 60 % 60 < 10 ^ (1 + 1) := by omega
  have hsecondDigits : t.second % 60 + t.nano / nanosPerSecond < 10 ^ (1 + 1) := by omega
  rw [timeText, readTime?]
  simp only [Option.bind_eq_bind, Option.bind_some, expect?_skipBlanks_cons (c := ':') rfl,
    readAtMost?_skipBlanks_padded hhourDigits, readAtMost?_skipBlanks_padded hminuteDigits,
    readAtMost?_skipBlanks_padded hsecondDigits, readFraction?_fractionText hnano]
  rw [if_pos ⟨hhour, hminute, hsecond⟩]
  have hsum : t.second / 3600 * 3600 + t.second / 60 % 60 * 60 + t.second % 60 = t.second := by
    omega
  -- A leap second is written as second sixty and read back into the nanoseconds.
  rcases t.second_and_nano with ⟨hbelow, hquotient⟩ | ⟨hlast, hquotient, hleap⟩
  · have hregular : ¬ t.second % 60 + t.nano / nanosPerSecond = 60 := by omega
    rw [if_neg hregular, if_neg hregular, hquotient, Nat.mod_eq_of_lt hbelow]
    simp only [Nat.add_zero, hsum]
    rfl
  · have hsixty : t.second % 60 + t.nano / nanosPerSecond = 60 := by omega
    rw [if_pos hsixty, if_pos hsixty, hleap]
    rw [hlast] at hsum
    simp only [hsum]
    rfl

/-- At the offset zero clocks show the point in time itself. -/
theorem atOffset?_zero (t : Timestamp) : atOffset? t.date t.second t.nano 0 = some t := by
  have hday : (t.second : Int) < (secondsPerDay : Int) := Int.ofNat_lt.2 t.isTimeOfDay.1
  unfold atOffset?
  rw [Int.sub_zero, if_neg (Int.not_lt.2 (Int.natCast_nonneg _)), if_pos hday, Int.toNat_natCast]
  exact dif_pos t.isTimeOfDay

theorem read?_text (t : Timestamp) : read? t.text = some t := by
  have htext : t.text = t.date.text ++ ('T' :: t.timeText) := by
    simp [text, timeText]
  have hdate := Date.readFront?_text t.date ('T' :: t.timeText)
  have hmark : (expect? 'T' ('T' :: t.timeText) <|> expect? 't' ('T' :: t.timeText) <|>
      expect? ' ' ('T' :: t.timeText)) = some t.timeText := by
    rw [expect?, if_pos rfl]
    rfl
  have hoffset : readOffset? (skipBlanks ['Z']) = some (0, []) := by
    rw [skipBlanks_cons rfl]
    rfl
  have hend : skipBlanks [] = [] := rfl
  rw [htext]
  refine Option.bind_eq_some_iff.2 ⟨_, hdate, Option.bind_eq_some_iff.2 ⟨_, hmark, ?_⟩⟩
  refine Option.bind_eq_some_iff.2 ⟨_, t.readTime?_timeText, ?_⟩
  exact Option.bind_eq_some_iff.2 ⟨_, hoffset, (if_pos hend).trans t.atOffset?_zero⟩

end Timestamp

end EntityQuery
