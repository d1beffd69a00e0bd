import EntityQuery.Proofs.Plan.Equality

/-!
# Equality of drafts

`==` on drafts goes down to the values of their criteria, like `==` on plans.  Equal drafts render
to equal plans or fail alike: an error names attributes, entities and operators, which are the same
in equal drafts, and no values.
-/

namespace EntityQuery

/-! ## Filters -/

instance : EquivBEq Criterion := equivBEq_of_parts Criterion.toCondition fun _ _ => Iff.rfl

namespace FilterDraft

variable {f g : FilterDraft} {fs gs : List FilterDraft}

/-- What follows for a draft from its groups holds of every draft. -/
@[elab_as_elim]
theorem induction {P : FilterDraft → Prop} (f : FilterDraft)
    (step : ∀ f : FilterDraft, (∀ group ∈ f.groups, P group) → P f) : P f :=
  match f with
  | ⟨combinator, criteria, groups⟩ =>
      step ⟨combinator, criteria, groups⟩ fun group _ => induction group step

theorem sameAll_iff : sameAll fs gs = true ↔ List.Forall₂ Equal fs gs := by
  induction fs generalizing gs with
  | nil => cases gs <;> simp [sameAll]
  | cons f fs ih =>
      cases gs with
      | nil => simp [sameAll]
      | cons g gs =>
          rw [sameAll, Bool.and_eq_true, List.forall₂_cons, ih]
          rfl

theorem equal_iff : Equal f g ↔ f.combinator = g.combinator ∧
    List.Forall₂ Equal f.criteria g.criteria ∧ List.Forall₂ Equal f.groups g.groups := by
  obtain ⟨combinator, criteria, groups⟩ := f
  obtain ⟨combinator', criteria', groups'⟩ := g
  change same _ _ = true ↔ _
  rw [same, Bool.and_eq_true, Bool.and_eq_true, decide_eq_true_eq, sameAll_iff, and_assoc]
  exact and_congr_right' (and_congr_left' equal_list_iff)

theorem equal_iff_parts (f g : FilterDraft) : Equal f g ↔
    Equal (f.combinator, f.criteria, f.groups) (g.combinator, g.criteria, g.groups) := by
  rw [equal_iff, equal_prod_iff, equal_prod_iff, equal_eq_iff, equal_list_iff, equal_list_iff]

theorem equivAt (f : FilterDraft) : EquivAt f := by
  induction f using FilterDraft.induction with
  | step f ih =>
      exact .of_parts _ equal_iff_parts
        (.prod (.of_equivBEq _) (.prod (.of_equivBEq _) (.list ih)))

instance : EquivBEq FilterDraft := equivBEq_of_equivAt equivAt

theorem equal_push {c d : Criterion} (h : Equal f g) (hc : Equal c d) :
    Equal (f.push c) (g.push d) := by
  obtain ⟨hcombinator, hcriteria, hgroups⟩ := equal_iff.1 h
  exact equal_iff.2 ⟨hcombinator, List.rel_append hcriteria (.cons hc .nil), hgroups⟩

theorem equal_render (h : Equal f g) : Equal f.render g.render := by
  induction f using FilterDraft.induction generalizing g with
  | step f ih =>
      obtain ⟨hcombinator, hcriteria, hgroups⟩ := equal_iff.1 h
      rw [render_eq, render_eq]
      refine Filter.equal_iff.2 ⟨hcombinator, ?_, ?_⟩
      · exact forall₂_map_of_mem hcriteria fun c _ d hcd => hcd
      · exact forall₂_map_of_mem hgroups fun group hgroup other => ih group hgroup

end FilterDraft

/-! ## Joins -/

namespace JoinHead

variable {head head' : JoinHead}

theorem equal_iff : Equal head head' ↔
    ∃ filter, head' = { head with filter } ∧ Equal head.filter filter := by
  cases head
  cases head'
  change (_ == _ && (_ == _ && (_ == _ && (_ == _ && (_ == _ && _ == _))))) = true ↔ _
  simp only [Bool.and_eq_true, beq_iff_eq, JoinHead.mk.injEq]
  constructor
  · rintro ⟨rfl, rfl, rfl, rfl, rfl, hfilter⟩
    exact ⟨_, ⟨rfl, rfl, rfl, rfl, rfl, rfl⟩, hfilter⟩
  · rintro ⟨_, ⟨rfl, rfl, rfl, rfl, rfl, rfl⟩, hfilter⟩
    exact ⟨rfl, rfl, rfl, rfl, rfl, hfilter⟩

instance : EquivBEq JoinHead :=
  equivBEq_of_parts (fun head => (head.source, head.target, head.aliasName, head.kind, head.columns,
    head.filter)) fun _ _ => Iff.rfl

end JoinHead

namespace PendingJoin

variable {p q : PendingJoin} {ps qs : List PendingJoin}

theorem sameAll_iff : sameAll ps qs = true ↔ List.Forall₂ Equal ps qs := by
  induction ps generalizing qs with
  | nil => cases qs <;> simp [sameAll]
  | cons p ps ih =>
      cases qs with
      | nil => simp [sameAll]
      | cons q qs =>
          rw [sameAll, Bool.and_eq_true, List.forall₂_cons, ih]
          rfl

theorem equal_draft_iff {head head' : JoinHead} {joins joins' : List PendingJoin} :
    Equal (draft head joins) (draft head' joins') ↔
      Equal head head' ∧ List.Forall₂ Equal joins joins' := by
  change same _ _ = true ↔ _
  rw [same, Bool.and_eq_true, sameAll_iff]

theorem equal_rendered_iff (join : Join) (p : PendingJoin) : Equal (rendered join) p ↔
    ∃ join', p = rendered join' ∧ Equal join join' := by
  constructor
  · intro h
    cases p with
    | rendered join' => exact ⟨join', rfl, h⟩
    | draft head joins => cases h
  · rintro ⟨join', rfl, h⟩
    exact h

theorem equal_draft_iff_parts (parts : JoinHead × List PendingJoin) (p : PendingJoin) :
    Equal (draft parts.1 parts.2) p ↔
      ∃ parts' : JoinHead × List PendingJoin, p = draft parts'.1 parts'.2 ∧ Equal parts parts' := by
  simp only [equal_prod_iff, equal_list_iff]
  constructor
  · intro h
    cases p with
    | rendered join => cases h
    | draft head joins => exact ⟨(head, joins), rfl, equal_draft_iff.1 h⟩
  · rintro ⟨parts', rfl, h⟩
    exact equal_draft_iff.2 h

theorem equal_draft_iff_fields (head : JoinHead) (joins : List PendingJoin) (p : PendingJoin) :
    Equal (draft head joins) p ↔ ∃ filter joins', p = draft { head with filter } joins' ∧
      Equal head.filter filter ∧ List.Forall₂ Equal joins joins' := by
  rw [equal_draft_iff_parts (head, joins)]
  simp only [equal_prod_iff, equal_list_iff]
  constructor
  · rintro ⟨⟨head', joins'⟩, rfl, hhead, hjoins⟩
    obtain ⟨filter, rfl, hfilter⟩ := JoinHead.equal_iff.1 hhead
    exact ⟨filter, joins', rfl, hfilter, hjoins⟩
  · rintro ⟨filter, joins', rfl, hfilter, hjoins⟩
    exact ⟨({ head with filter }, joins'), rfl, JoinHead.equal_iff.2 ⟨filter, rfl, hfilter⟩, hjoins⟩

theorem equivAt (p : PendingJoin) : EquivAt p := by
  induction p using PendingJoin.induction with
  | rendered join => exact .of_constructor rendered equal_rendered_iff (.of_equivBEq join)
  | draft head joins ih =>
      exact .of_constructor (fun parts => draft parts.1 parts.2) equal_draft_iff_parts
        (.prod (.of_equivBEq head) (.list ih))

instance : EquivBEq PendingJoin := equivBEq_of_equivAt equivAt

theorem agree_renderAllUnder (parent : Option String)
    (h : List.Forall₂
      (fun p q => Agree Equal (renderUnder parent p) (renderUnder parent q)) ps qs) :
    Agree (List.Forall₂ Equal) (renderAllUnder parent ps) (renderAllUnder parent qs) := by
  induction h with
  | nil => exact .ok .nil
  | cons hp _ ih =>
      rw [renderAllUnder, renderAllUnder]
      exact hp.bind fun _ _ hjoin => ih.bind fun _ _ hjoins => .ok (.cons hjoin hjoins)

/-- Equal joins are rendered to equal joins, or fail alike, below any entity. -/
theorem agree_renderUnder (h : Equal p q) (parent : Option String) :
    Agree Equal (p.renderUnder parent) (q.renderUnder parent) := by
  induction p using PendingJoin.induction generalizing q parent with
  | rendered join =>
      cases q with
      | rendered join' => exact .ok (show Equal join join' from h)
      | draft head' joins' => cases h
  | draft head joins ih =>
      cases q with
      | rendered join' => cases h
      | draft head' joins' =>
          obtain ⟨hhead, hjoins⟩ := equal_draft_iff.1 h
          obtain ⟨filter, rfl, hfilter⟩ := JoinHead.equal_iff.1 hhead
          have hends : ({ head with filter } : JoinHead).ends parent = head.ends parent := rfl
          rw [renderUnder, renderUnder, hends]
          cases head.ends parent with
          | error e => exact .error e
          | ok ends =>
              have hnested := agree_renderAllUnder (some ends.target.entity)
                (forall₂_imp_of_mem hjoins fun p hp q hpq => ih p hp hpq _)
              exact hnested.bind fun nested nested' hnested =>
                .ok (Join.equal_iff.2 ⟨_, _, rfl, FilterDraft.equal_render hfilter, hnested⟩)

end PendingJoin

namespace JoinDraft

variable {j k : JoinDraft}

theorem equal_iff : Equal j k ↔ ∃ filter joins, k = { j with filter, joins } ∧
    Equal j.filter filter ∧ List.Forall₂ Equal j.joins joins := by
  change (j.toJoinHead == k.toJoinHead && j.joins == k.joins) = true ↔ _
  rw [Bool.and_eq_true]
  refine (and_congr JoinHead.equal_iff equal_list_iff).trans ?_
  constructor
  · rintro ⟨⟨filter, hhead, hfilter⟩, hjoins⟩
    refine ⟨filter, k.joins, ?_, hfilter, hjoins⟩
    rw [← hhead]
  · rintro ⟨filter, joins, rfl, hfilter, hjoins⟩
    exact ⟨⟨filter, rfl, hfilter⟩, hjoins⟩

/-- A draft is compared like the join it becomes in another draft. -/
theorem equal_pending_iff : Equal j.pending k.pending ↔ Equal j k := by
  rw [pending, pending, PendingJoin.equal_draft_iff, ← equal_list_iff]
  exact Bool.and_eq_true_iff.symm

instance : EquivBEq JoinDraft := equivBEq_of_parts pending fun _ _ => equal_pending_iff.symm

/-- Equal joins are rendered to equal joins, or fail alike. -/
theorem agree_render (h : Equal j k) : Agree Equal j.render k.render :=
  PendingJoin.agree_renderUnder (equal_pending_iff.2 h) none

end JoinDraft

/-! ## Queries -/

namespace QueryDraft

variable {q r : QueryDraft}

theorem equal_iff : Equal q r ↔ ∃ filter joins, r = { q with filter, joins } ∧
    Equal q.filter filter ∧ List.Forall₂ Equal q.joins joins := by
  cases q
  cases r
  change (_ == _ && (_ == _ && (_ == _ && (_ == _ && (_ == _ && (_ == _ && (_ == _ &&
    _ == _))))))) = true ↔ _
  simp only [Bool.and_eq_true, beq_iff_eq, QueryDraft.mk.injEq]
  constructor
  · rintro ⟨rfl, rfl, hfilter, hjoins, rfl, rfl, rfl, rfl⟩
    exact ⟨_, _, ⟨rfl, rfl, rfl, rfl, rfl, rfl, rfl, rfl⟩, hfilter, equal_list_iff.1 hjoins⟩
  · rintro ⟨_, _, ⟨rfl, rfl, rfl, rfl, rfl, rfl, rfl, rfl⟩, hfilter, hjoins⟩
    exact ⟨rfl, rfl, hfilter, equal_list_iff.2 hjoins, rfl, rfl, rfl, rfl⟩

instance : EquivBEq QueryDraft :=
  equivBEq_of_parts (fun q => (q.entity, q.columns, q.filter, q.joins, q.sort, q.paging,
    q.consistency, q.joinKind)) fun _ _ => Iff.rfl

/-- Equal queries are rendered to equal plans, or fail alike. -/
theorem agree_render (h : Equal q r) : Agree Equal q.render r.render := by
  obtain ⟨filter, joins, rfl, hfilter, hjoins⟩ := equal_iff.1 h
  have hrendered := PendingJoin.agree_renderAllUnder none
    (hjoins.imp fun _ _ hp => PendingJoin.agree_renderUnder hp none)
  exact hrendered.bind fun nested nested' hnested =>
    .ok (Plan.equal_iff.2 ⟨_, _, rfl, FilterDraft.equal_render hfilter, hnested⟩)

end QueryDraft

end EntityQuery
