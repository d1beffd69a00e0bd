import Mathlib.Data.List.Forall2
import EntityQuery.Value

/-!
# Equality up to `==`

`==` on values takes decimals of one amount for one value and is identity otherwise.  Two decimals
are compared over the product of their denominators, which a third does not share; as it is positive
it can be multiplied in and cancelled, so that `==` is an equivalence, on decimals and on values.
-/

namespace EntityQuery

/-- Two values that `==` takes for one. -/
abbrev Equal {α : Type} [BEq α] (a b : α) : Prop := (a == b) = true

theorem equal_list_iff {α : Type} [BEq α] {as bs : List α} :
    Equal as bs ↔ List.Forall₂ Equal as bs := by
  induction as generalizing bs with
  | nil => cases bs <;> simp [Equal]
  | cons a as ih =>
      cases bs with
      | nil => simp [Equal]
      | cons b bs => rw [List.forall₂_cons, ← ih, Equal, List.cons_beq_cons, Bool.and_eq_true]

/-! ## Options -/

section Options

variable {α : Type} [BEq α] [EquivBEq α] {x y z : Option α}

theorem optionRel_refl (x : Option α) : Option.Rel Equal x x := by
  cases x with
  | none => exact .none
  | some a => exact .some BEq.rfl

theorem optionRel_symm (h : Option.Rel Equal x y) : Option.Rel Equal y x := by
  cases h with
  | none => exact .none
  | some h => exact .some (BEq.symm h)

theorem optionRel_trans (h : Option.Rel Equal x y) (h' : Option.Rel Equal y z) :
    Option.Rel Equal x z := by
  cases h with
  | none => exact h'
  | some h =>
      cases h' with
      | some h' => exact .some (BEq.trans h h')

end Options

theorem optionRel_bind {α β : Type} {R : α → α → Prop} {S : β → β → Prop} {x y : Option α}
    {f : α → Option β} (h : Option.Rel R x y)
    (hf : ∀ a b, R a b → Option.Rel S (f a) (f b)) : Option.Rel S (x.bind f) (y.bind f) := by
  cases h with
  | none => exact .none
  | some h => exact hf _ _ h

theorem eq_of_optionRel {α : Type} [BEq α] [LawfulBEq α] {x y : Option α}
    (h : Option.Rel Equal x y) : x = y := by
  cases h with
  | none => rfl
  | some h => rw [eq_of_beq h]

/-! ## Decimals -/

namespace Decimal

variable {a b c : Decimal}

theorem equal_iff : Equal a b ↔ a.signed * tenTo b.scale = b.signed * tenTo a.scale :=
  decide_eq_true_iff

theorem equal_trans (hab : Equal a b) (hbc : Equal b c) : Equal a c := by
  rw [equal_iff] at hab hbc ⊢
  have hpos : (0 : Int) < tenTo b.scale := Int.natCast_pos.2 (tenTo_pos _)
  refine Int.eq_of_mul_eq_mul_right (Int.ne_of_gt hpos) ?_
  calc
    a.signed * tenTo c.scale * tenTo b.scale = a.signed * tenTo b.scale * tenTo c.scale :=
      Int.mul_right_comm ..
    _ = b.signed * tenTo c.scale * tenTo a.scale := by rw [hab, Int.mul_right_comm]
    _ = c.signed * tenTo a.scale * tenTo b.scale := by rw [hbc, Int.mul_right_comm]

instance : EquivBEq Decimal where
  rfl := equal_iff.2 rfl
  symm h := equal_iff.2 (equal_iff.1 h).symm
  trans := equal_trans

end Decimal

/-! ## Values -/

namespace Value

/-- Every value is equal to itself; floating point numbers are compared by their bits. -/
theorem equal_refl (value : Value) : Equal value value := by
  change same value value = true
  cases value with
  | decimal d => exact decide_eq_true rfl
  | _ => exact decide_eq_true rfl

/-- Values that `==` takes for one are the same, or decimals of one amount. -/
theorem equal_iff {v w : Value} : Equal v w ↔
    v = w ∨ ∃ a b, v = .decimal a ∧ w = .decimal b ∧ Equal a b := by
  constructor
  · intro h
    change same v w = true at h
    cases v <;> cases w
    case decimal.decimal a b => exact .inr ⟨a, b, rfl, rfl, h⟩
    all_goals simp_all [same]
  · rintro (rfl | ⟨a, b, rfl, rfl, h⟩)
    · exact equal_refl v
    · exact h

instance : EquivBEq Value where
  rfl := equal_refl _
  symm h := by
    obtain rfl | ⟨a, b, rfl, rfl, hab⟩ := equal_iff.1 h
    · exact equal_refl _
    · exact equal_iff.2 (.inr ⟨b, a, rfl, rfl, BEq.symm hab⟩)
  trans h h' := by
    obtain rfl | ⟨a, b, rfl, rfl, hab⟩ := equal_iff.1 h
    · exact h'
    · obtain rfl | ⟨b', c, hb, rfl, hbc⟩ := equal_iff.1 h'
      · exact h
      · cases hb
        exact equal_iff.2 (.inr ⟨a, c, rfl, rfl, BEq.trans hab hbc⟩)

theorem kind_eq_of_equal {v w : Value} (h : Equal v w) : v.kind = w.kind := by
  obtain rfl | ⟨a, b, rfl, rfl, -⟩ := equal_iff.1 h <;> rfl

/-- Floating point numbers are compared by their patterns, so that each equals itself. -/
theorem equal_float64_iff {x y : Binary64} :
    Equal (float64 x) (float64 y) ↔ x.bits = y.bits := by
  cases x
  cases y
  exact decide_eq_true_iff.trans (by rw [Binary64.mk.injEq])

/-- Of two patterns that are not numbers, each equals itself and not the other. -/
example : Equal (float64 ⟨0x7ff8000000000000⟩) (float64 ⟨0x7ff8000000000000⟩) ∧
    ¬ Equal (float64 ⟨0x7ff8000000000000⟩) (float64 ⟨0x7ff8000000000001⟩) := by
  decide

end Value

end EntityQuery
