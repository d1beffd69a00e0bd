import Mathlib.Algebra.Group.Nat.Defs
import EntityQuery.Text.Blank
import EntityQuery.Text.Digits

/-!
# Reading runs of digits

What is written as digits is read as the same number, up to the first character that is not a digit
or up to the limit of the reader.  Numbers with digits of their own and numbers that are padded to a
width are both runs of digits, and blanks are skipped in front of none.
-/

namespace EntityQuery

namespace Digits

variable {digits rest : List Char} {limit : Nat}

def IsRun (digits : List Char) : Prop := ∀ c ∈ digits, c.isDigit = true

/-- Whether a reader of digits stops in front of a text. -/
def Stops (rest : List Char) : Prop := ∀ c ∈ rest.head?, c.isDigit = false

theorem stops_cons {c : Char} (h : c.isDigit = false) : Stops (c :: rest) := by
  intro d hd
  cases hd
  exact h

/-! ## Runs -/

theorem isRun_append {digits' : List Char} :
    IsRun (digits ++ digits') ↔ IsRun digits ∧ IsRun digits' :=
  List.forall_mem_append

theorem isRun_replicate_zero (count : Nat) : IsRun (List.replicate count '0') := by
  intro c hc
  rw [List.eq_of_mem_replicate hc]
  rfl

theorem isRun_toDigits (n : Nat) : IsRun (Nat.toDigits 10 n) :=
  fun _ hc => Nat.isDigit_of_mem_toDigits (by decide) (by decide) hc

theorem isRun_padded (width n : Nat) : IsRun (padded width n) := by
  induction width generalizing n with
  | zero => exact fun _ h => absurd h List.not_mem_nil
  | succ width ih =>
      refine isRun_append.2 ⟨ih (n / 10), fun c hc => ?_⟩
      rw [List.mem_singleton.1 hc, Nat.isDigit_digitChar]
      exact decide_eq_true (Nat.mod_lt n (by decide))

theorem padded_ne_nil (width n : Nat) : padded (width + 1) n ≠ [] := by
  rw [padded]
  exact List.append_ne_nil_of_right_ne_nil _ (List.cons_ne_nil _ _)

/-! ## Values -/

theorem toNat_digitChar : ∀ n : Nat, n < 10 → n.digitChar.toNat - '0'.toNat = n := by decide

theorem value_toDigits (n : Nat) : value (Nat.toDigits 10 n) = n :=
  Nat.ofDigitChars_toDigits (by decide) (by decide)

theorem value_replicate_zero_append (count : Nat) (digits : List Char) :
    value (List.replicate count '0' ++ digits) = value digits := by
  induction count with
  | zero => rfl
  | succ count ih =>
      rw [List.replicate_succ, List.cons_append]
      exact Nat.ofDigitChars_cons.trans ih

theorem value_padded {width n : Nat} (h : n < 10 ^ width) : value (padded width n) = n := by
  induction width generalizing n with
  | zero =>
      rw [Nat.pow_zero, Nat.lt_one_iff] at h
      rw [h]
      rfl
  | succ width ih =>
      have hhigher : value (padded width (n / 10)) = n / 10 := by
        apply ih
        rw [Nat.pow_succ] at h
        omega
      unfold value at hhigher ⊢
      rw [padded, Nat.ofDigitChars_append, hhigher, Nat.ofDigitChars_cons,
        toNat_digitChar _ (Nat.mod_lt n (by decide))]
      exact Nat.div_add_mod n 10

/-! ## Reading -/

theorem splitAtMost_append (hrun : IsRun digits) (hlimit : digits.length ≤ limit)
    (hrest : Stops rest ∨ digits.length = limit) :
    splitAtMost limit (digits ++ rest) = (digits, rest) := by
  induction digits generalizing limit with
  | nil =>
      cases limit with
      | zero => rfl
      | succ limit =>
          have hstops := hrest.resolve_right (by simp)
          cases rest with
          | nil => rfl
          | cons c rest =>
              have hc := hstops c rfl
              simp [splitAtMost, hc]
  | cons c digits ih =>
      obtain ⟨hc, hdigits⟩ := List.forall_mem_cons.1 hrun
      cases limit with
      | zero => cases hlimit
      | succ limit =>
          have hlater := ih hdigits (Nat.le_of_succ_le_succ hlimit)
            (hrest.imp_right fun h => Nat.succ.inj h)
          simp [splitAtMost, hc, hlater]

theorem readAtMost?_append (hrun : IsRun digits) (hne : digits ≠ [])
    (hlimit : digits.length ≤ limit) (hrest : Stops rest ∨ digits.length = limit) :
    readAtMost? limit (digits ++ rest) = some (value digits, rest) := by
  rw [readAtMost?, splitAtMost_append hrun hlimit hrest]
  cases digits with
  | nil => exact absurd rfl hne
  | cons c digits => rfl

theorem read?_append (hrun : IsRun digits) (hne : digits ≠ []) (hrest : Stops rest) :
    read? (digits ++ rest) = some (value digits, rest) :=
  readAtMost?_append hrun hne (by rw [List.length_append]; omega) (.inl hrest)

/-- A number that is padded to the limit of the reader is read, whatever follows. -/
theorem readAtMost?_padded {width n : Nat} (h : n < 10 ^ (width + 1)) (rest : List Char) :
    readAtMost? (width + 1) (padded (width + 1) n ++ rest) = some (n, rest) := by
  have hlength := length_padded (width + 1) n
  rw [readAtMost?_append (isRun_padded _ n) (padded_ne_nil width n) (Nat.le_of_eq hlength)
    (.inr hlength), value_padded h]

end Digits

/-! ## Blanks -/

theorem isBlank_of_isDigit {c : Char} (h : c.isDigit = true) : isBlank c = false := by
  have hrange : 48 ≤ c.toNat ∧ c.toNat ≤ 57 := by
    simpa [Char.isDigit, UInt32.le_iff_toNat_le] using h
  unfold isBlank
  simp
  omega

theorem skipBlanks_cons {c : Char} (h : isBlank c = false) (text : List Char) :
    skipBlanks (c :: text) = c :: text := by
  simp [skipBlanks, h]

theorem skipBlanks_run {digits : List Char} (hrun : Digits.IsRun digits) (hne : digits ≠ [])
    (rest : List Char) : skipBlanks (digits ++ rest) = digits ++ rest := by
  cases digits with
  | nil => exact absurd rfl hne
  | cons c digits => exact skipBlanks_cons (isBlank_of_isDigit (hrun c List.mem_cons_self)) _

/-- A padded number is read as a whole where blanks are skipped in front of it. -/
theorem readAtMost?_skipBlanks_padded {width n : Nat} (h : n < 10 ^ (width + 1))
    (rest : List Char) :
    Digits.readAtMost? (width + 1) (skipBlanks (Digits.padded (width + 1) n ++ rest)) =
      some (n, rest) := by
  rw [skipBlanks_run (Digits.isRun_padded _ n) (Digits.padded_ne_nil width n),
    Digits.readAtMost?_padded h]

theorem expect?_skipBlanks_cons {c : Char} (h : isBlank c = false) (rest : List Char) :
    expect? c (skipBlanks (c :: rest)) = some rest := by
  rw [skipBlanks_cons h, expect?, if_pos rfl]

end EntityQuery
