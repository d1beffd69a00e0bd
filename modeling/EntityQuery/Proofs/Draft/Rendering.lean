import Mathlib.Data.List.Forall2
import EntityQuery.Draft.QueryDraft

/-!
# Calculus of rendering

A pending join renders its own ends first and then the joins nested in it, below the entity of its
remote end.  The lemmas below say this once, as inversions of a successful rendering and as
equations for lists, so that no later proof opens the recursion again.  The entity of the enclosing
join reaches the local end and nothing else: a join that can be rendered alone does not depend on
it.
-/

namespace EntityQuery

variable {ε α β γ : Type}

/-! ## Results -/

theorem bind_eq_ok {x : Except ε α} {f : α → Except ε β} {b : β} :
    (x >>= f) = .ok b ↔ ∃ a, x = .ok a ∧ f a = .ok b := by
  cases x <;> simp [bind, Except.bind]

theorem map_eq_ok {x : Except ε α} {f : α → β} {b : β} :
    x.map f = .ok b ↔ ∃ a, x = .ok a ∧ f a = b := by
  cases x <;> simp [Except.map]

theorem mem_toList_map {x : Except ε α} {f : α → β} {b : β} :
    b ∈ (x.map f).toOption.toList ↔ ∃ a, x = .ok a ∧ f a = b := by
  cases x <;> simp [Except.map, Except.toOption, eq_comm]

/-- The error of a result. -/
def failure? : Except ε α → Option ε
  | .ok _ => none
  | .error e => some e

theorem failure?_eq_none {x : Except ε α} : failure? x = none ↔ ∃ a, x = .ok a := by
  cases x <;> simp [failure?]

theorem failure?_eq_some {x : Except ε α} {e : ε} : failure? x = some e ↔ x = .error e := by
  cases x <;> simp [failure?]

/-- Of two computations in a row, the first that fails gives the error. -/
theorem failure?_bind (x : Except ε α) (f : α → Except ε β) (later : Option ε)
    (h : ∀ a, x = .ok a → failure? (f a) = later) :
    failure? (x >>= f) = (failure? x).or later := by
  cases x with
  | error e => rfl
  | ok a => exact h a rfl

/-- One error, or two values in a relation. -/
inductive Agree {ε α β : Type} (R : α → β → Prop) : Except ε α → Except ε β → Prop
  | ok {a : α} {b : β} (h : R a b) : Agree R (.ok a) (.ok b)
  | error (e : ε) : Agree R (.error e) (.error e)

namespace Agree

variable {ε α β γ δ : Type} {R : α → β → Prop} {S : γ → δ → Prop}
  {x : Except ε α} {y : Except ε β}

theorem map {f : α → γ} {g : β → δ} (h : Agree R x y) (hfg : ∀ a b, R a b → S (f a) (g b)) :
    Agree S (x.map f) (y.map g) := by
  cases h with
  | ok h => exact .ok (hfg _ _ h)
  | error e => exact .error e

theorem bind {f : α → Except ε γ} {g : β → Except ε δ} (h : Agree R x y)
    (hfg : ∀ a b, R a b → Agree S (f a) (g b)) : Agree S (x >>= f) (y >>= g) := by
  cases h with
  | ok h => exact hfg _ _ h
  | error e => exact .error e

theorem bind_eq {f : α → Except ε γ} {g : β → Except ε γ} (h : Agree R x y)
    (hfg : ∀ a b, R a b → f a = g b) : (x >>= f) = (y >>= g) := by
  cases h with
  | ok h => exact hfg _ _ h
  | error e => rfl

end Agree

/-! ## Lists side by side -/

theorem forall₂_imp_of_mem {R S : α → β → Prop} {as : List α} {bs : List β}
    (h : List.Forall₂ R as bs) (imp : ∀ a ∈ as, ∀ b, R a b → S a b) : List.Forall₂ S as bs := by
  induction h with
  | nil => exact .nil
  | cons hab _ ih =>
      refine .cons (imp _ List.mem_cons_self _ hab) (ih fun a ha => ?_)
      exact imp a (List.mem_cons_of_mem _ ha)

/-- Two lists are alike if what one function makes of their members is alike. -/
theorem forall₂_map_of_mem {R : α → α → Prop} {S : β → β → Prop} {f : α → β}
    {as bs : List α} (h : List.Forall₂ R as bs) (hf : ∀ a ∈ as, ∀ b, R a b → S (f a) (f b)) :
    List.Forall₂ S (as.map f) (bs.map f) := by
  rw [List.forall₂_map_left_iff, List.forall₂_map_right_iff]
  exact forall₂_imp_of_mem h hf

theorem exists_left_of_forall₂ {R : α → β → Prop} {as : List α} {bs : List β}
    (h : List.Forall₂ R as bs) {b : β} (hb : b ∈ bs) : ∃ a ∈ as, R a b := by
  induction h with
  | nil => exact absurd hb List.not_mem_nil
  | cons hab _ ih =>
      rcases List.mem_cons.1 hb with rfl | hb
      · exact ⟨_, List.mem_cons_self, hab⟩
      · obtain ⟨a, ha, hr⟩ := ih hb
        exact ⟨a, List.mem_cons_of_mem _ ha, hr⟩

theorem forall₂_comp {R : α → β → Prop} {S : β → γ → Prop} {as : List α} {bs : List β} {cs : List γ}
    (h : List.Forall₂ R as bs) (h' : List.Forall₂ S bs cs) :
    List.Forall₂ (fun a c => ∃ b, R a b ∧ S b c) as cs := by
  induction h generalizing cs with
  | nil =>
      cases h'
      exact .nil
  | cons hab _ ih =>
      cases h' with
      | cons hbc hrest => exact .cons ⟨_, hab, hbc⟩ (ih hrest)

/-! ## Filters -/

namespace FilterDraft

theorem renderAll_eq_map (fs : List FilterDraft) : renderAll fs = fs.map render := by
  induction fs with
  | nil => rfl
  | cons f fs ih => rw [renderAll, ih, List.map_cons]

theorem render_eq (f : FilterDraft) :
    f.render = ⟨f.combinator, f.criteria.map Criterion.toCondition, f.groups.map render⟩ := by
  obtain ⟨combinator, criteria, groups⟩ := f
  rw [render, renderAll_eq_map]

end FilterDraft

/-! ## Ends -/

namespace JoinHead

variable {head : JoinHead} {parent : Option String} {ends : JoinEnds}

/-- A join with both ends knows the entity of the local one. -/
theorem ends_eq_ok : head.ends parent = .ok ends ↔ ∃ source localEntity target,
    head.source = some source ∧ source.entity? parent = some localEntity ∧
      head.target = some target ∧ ⟨localEntity, source.attr, target⟩ = ends := by
  unfold JoinHead.ends
  cases hs : head.source with
  | none => simp
  | some source =>
      cases he : source.entity? parent with
      | none => simp [he]
      | some localEntity => cases ht : head.target <;> simp [he]

/-- An enclosing join makes no difference to ends that are known without one. -/
theorem ends_of_ends_none (h : head.ends none = .ok ends) : head.ends parent = .ok ends := by
  obtain ⟨source, localEntity, target, hs, he, ht, hends⟩ := ends_eq_ok.1 h
  cases source with
  | fixed endpoint => exact ends_eq_ok.2 ⟨_, _, _, hs, he, ht, hends⟩
  | inherited attr => simp [LocalEnd.entity?] at he

end JoinHead

/-! ## Pending joins -/

namespace PendingJoin

variable {parent : Option String} {head : JoinHead} {joins ps qs : List PendingJoin}

/-- What follows for a draft from the joins nested in it holds of every pending join that it holds
of when rendered. -/
@[elab_as_elim]
theorem induction {P : PendingJoin → Prop} (p : PendingJoin) (rendered : ∀ join, P (rendered join))
    (draft : ∀ head joins, (∀ p ∈ joins, P p) → P (draft head joins)) : P p :=
  match p with
  | .rendered join => rendered join
  | .draft head joins => draft head joins fun p _ => induction p rendered draft

mutual

/-- The rendered joins that a pending join is or contains. -/
def prebuilt : PendingJoin → List Join
  | rendered join => [join]
  | draft _ joins => prebuiltAll joins

def prebuiltAll : List PendingJoin → List Join
  | [] => []
  | p :: ps => p.prebuilt ++ prebuiltAll ps

end

theorem mem_prebuiltAll {join : Join} {ps : List PendingJoin} :
    join ∈ prebuiltAll ps ↔ ∃ p ∈ ps, join ∈ p.prebuilt := by
  induction ps with
  | nil => simp [prebuiltAll]
  | cons p ps ih => simp [prebuiltAll, ih]

theorem renderUnder_draft_eq_ok {join : Join} :
    renderUnder parent (draft head joins) = .ok join ↔ ∃ ends, head.ends parent = .ok ends ∧
      ∃ nested, renderAllUnder (some ends.target.entity) joins = .ok nested ∧
        head.node ends nested = join := by
  simp [renderUnder, bind_eq_ok, pure, Except.pure]

theorem renderAllUnder_cons_eq_ok {p : PendingJoin} {rendered : List Join} :
    renderAllUnder parent (p :: ps) = .ok rendered ↔ ∃ join, p.renderUnder parent = .ok join ∧
      ∃ rest, renderAllUnder parent ps = .ok rest ∧ join :: rest = rendered := by
  simp [renderAllUnder, bind_eq_ok, pure, Except.pure]

/-- Joins are rendered one by one. -/
theorem renderAllUnder_eq_ok {rendered : List Join} : renderAllUnder parent ps = .ok rendered ↔
    List.Forall₂ (fun p join => p.renderUnder parent = .ok join) ps rendered := by
  induction ps generalizing rendered with
  | nil => simp [renderAllUnder, eq_comm]
  | cons p ps ih =>
      rw [renderAllUnder_cons_eq_ok, List.forall₂_cons_left_iff]
      simp only [ih]
      constructor
      · rintro ⟨join, hp, rest, hps, rfl⟩
        exact ⟨join, rest, hp, hps, rfl⟩
      · rintro ⟨join, rest, hp, hps, rfl⟩
        exact ⟨join, hp, rest, hps, rfl⟩

theorem renderAllUnder_singleton (p : PendingJoin) :
    renderAllUnder parent [p] = (p.renderUnder parent).map fun join => [join] := by
  rw [renderAllUnder, renderAllUnder]
  cases p.renderUnder parent <;> rfl

/-- Two lists of joins in a row are rendered one after the other. -/
theorem renderAllUnder_append : renderAllUnder parent (ps ++ qs) =
    (renderAllUnder parent ps >>= fun before =>
      (renderAllUnder parent qs).map fun after => before ++ after) := by
  induction ps with
  | nil =>
      rw [List.nil_append, renderAllUnder]
      cases renderAllUnder parent qs <;> rfl
  | cons p ps ih =>
      rw [List.cons_append, renderAllUnder, renderAllUnder, ih]
      cases p.renderUnder parent with
      | error e => rfl
      | ok join =>
          cases renderAllUnder parent ps with
          | error e => rfl
          | ok before => cases renderAllUnder parent qs <;> rfl

theorem renderAllUnder_append_eq_ok {rendered : List Join} :
    renderAllUnder parent (ps ++ qs) = .ok rendered ↔
      ∃ before, renderAllUnder parent ps = .ok before ∧
        ∃ after, renderAllUnder parent qs = .ok after ∧ before ++ after = rendered := by
  simp [renderAllUnder_append, bind_eq_ok, map_eq_ok]

/-- A join that can be rendered alone is rendered alike below any other. -/
theorem renderUnder_of_render {p : PendingJoin} {join : Join} (h : p.render = .ok join) :
    p.renderUnder parent = .ok join := by
  cases p with
  | rendered prebuilt => exact h
  | draft head joins =>
      obtain ⟨ends, he, nested⟩ := renderUnder_draft_eq_ok.1 h
      exact renderUnder_draft_eq_ok.2 ⟨ends, JoinHead.ends_of_ends_none he, nested⟩

end PendingJoin

/-! ## Queries -/

/-- A plan shows its draft with the joins rendered, and fails as they do. -/
theorem QueryDraft.render_eq_ok {q : QueryDraft} {plan : Plan} :
    q.render = .ok plan ↔ ∃ joins, PendingJoin.renderAllUnder none q.joins = .ok joins ∧
      ⟨q.entity, q.columns.render, q.filter.render, joins, q.sort, q.paging, q.consistency⟩ =
        plan := by
  simp [QueryDraft.render, bind_eq_ok, pure, Except.pure]

end EntityQuery
