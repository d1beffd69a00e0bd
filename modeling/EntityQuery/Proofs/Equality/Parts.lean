import EntityQuery.Proofs.Draft.Rendering
import EntityQuery.Proofs.Equality

/-!
# Equality by parts

`==` takes a tree apart: a structure is compared by its fields, a list member by member, and at the
leaves there are values and names.  So it is an equivalence at a tree if it is one at the parts, and
by induction it is one at every tree.
-/

namespace EntityQuery

variable {α β : Type} [BEq α] [BEq β]

/-- `==` is an equivalence as far as this element is the first to be compared.  All three laws are
said of one element, so that they go through a tree in one induction. -/
structure EquivAt (a : α) : Prop where
  refl : Equal a a
  symm {b : α} (h : Equal a b) : Equal b a
  trans {b c : α} (hab : Equal a b) (hbc : Equal b c) : Equal a c

theorem EquivAt.of_equivBEq [EquivBEq α] (a : α) : EquivAt a := ⟨BEq.rfl, BEq.symm, BEq.trans⟩

theorem equivBEq_of_equivAt (h : ∀ a : α, EquivAt a) : EquivBEq α where
  rfl := (h _).refl
  symm := (h _).symm
  trans := (h _).trans

theorem equivalence_equal [EquivBEq α] : Equivalence (Equal : α → α → Prop) :=
  ⟨fun _ => BEq.rfl, BEq.symm, BEq.trans⟩

namespace EquivAt

theorem of_parts (parts : α → β) (hparts : ∀ a b, Equal a b ↔ Equal (parts a) (parts b)) {a : α}
    (h : EquivAt (parts a)) : EquivAt a where
  refl := (hparts _ _).2 h.refl
  symm hab := (hparts _ _).2 (h.symm ((hparts _ _).1 hab))
  trans hab hbc := (hparts _ _).2 (h.trans ((hparts _ _).1 hab) ((hparts _ _).1 hbc))

/-- The same for one constructor of several, none of which equals another. -/
theorem of_constructor (make : β → α)
    (hmake : ∀ x a, Equal (make x) a ↔ ∃ y, a = make y ∧ Equal x y) {x : β} (h : EquivAt x) :
    EquivAt (make x) where
  refl := (hmake _ _).2 ⟨x, rfl, h.refl⟩
  symm hab := by
    obtain ⟨y, rfl, hxy⟩ := (hmake _ _).1 hab
    exact (hmake _ _).2 ⟨x, rfl, h.symm hxy⟩
  trans hab hbc := by
    obtain ⟨y, rfl, hxy⟩ := (hmake _ _).1 hab
    obtain ⟨z, rfl, hyz⟩ := (hmake _ _).1 hbc
    exact (hmake _ _).2 ⟨z, rfl, h.trans hxy hyz⟩

end EquivAt

theorem equal_eq_iff [LawfulBEq α] {a b : α} : Equal a b ↔ a = b := beq_iff_eq

theorem equal_prod_iff {p q : α × β} : Equal p q ↔ Equal p.1 q.1 ∧ Equal p.2 q.2 := by
  change (p.1 == q.1 && p.2 == q.2) = true ↔ _
  rw [Bool.and_eq_true]

namespace EquivAt

theorem prod {a : α} {b : β} (ha : EquivAt a) (hb : EquivAt b) : EquivAt (a, b) where
  refl := equal_prod_iff.2 ⟨ha.refl, hb.refl⟩
  symm h := by
    obtain ⟨h₁, h₂⟩ := equal_prod_iff.1 h
    exact equal_prod_iff.2 ⟨ha.symm h₁, hb.symm h₂⟩
  trans h h' := by
    obtain ⟨h₁, h₂⟩ := equal_prod_iff.1 h
    obtain ⟨h₁', h₂'⟩ := equal_prod_iff.1 h'
    exact equal_prod_iff.2 ⟨ha.trans h₁ h₁', hb.trans h₂ h₂'⟩

theorem list {as : List α} (h : ∀ a ∈ as, EquivAt a) : EquivAt as where
  refl := equal_list_iff.2 (List.forall₂_same.2 fun a ha => (h a ha).refl)
  symm hab := by
    rw [equal_list_iff] at hab ⊢
    exact List.Forall₂.flip (forall₂_imp_of_mem hab fun a ha _ => (h a ha).symm)
  trans hab hbc := by
    rw [equal_list_iff] at hab hbc ⊢
    refine forall₂_imp_of_mem (forall₂_comp hab hbc) fun a ha c hac => ?_
    obtain ⟨b, hab, hbc⟩ := hac
    exact (h a ha).trans hab hbc

end EquivAt

instance equivBEq_prod [EquivBEq α] [EquivBEq β] : EquivBEq (α × β) :=
  equivBEq_of_equivAt fun p => .prod (.of_equivBEq p.1) (.of_equivBEq p.2)

instance equivBEq_list [EquivBEq α] : EquivBEq (List α) :=
  equivBEq_of_equivAt fun _ => .list fun a _ => .of_equivBEq a

theorem equivBEq_of_parts [EquivBEq β] (parts : α → β)
    (hparts : ∀ a b, Equal a b ↔ Equal (parts a) (parts b)) : EquivBEq α :=
  equivBEq_of_equivAt fun a => .of_parts parts hparts (.of_equivBEq (parts a))

end EntityQuery
