import EntityQuery.Proofs.Draft.Equality
import EntityQuery.Proofs.Scalar.Amount

/-!
# The laws of equality

`==` is an equivalence on values, plans and drafts.  That there is something to show is due to the
values, for numbers of two scales may be equal, and floating point numbers that are not numbers are
equal to themselves; it is lifted part by part to trees of every depth.
-/

namespace EntityQuery

/-- What `==` compares.  Wherever trees are compared, all is the same in both but the values, and
there the decimals may have other scales. -/
structure ComparedByParts : Prop where
  value (v w : Value) : Equal v w ↔
    v = w ∨ ∃ a b : Decimal, v = .decimal a ∧ w = .decimal b ∧ a.amount = b.amount
  condition (c d : Condition) : Equal c d ↔
    c.attr = d.attr ∧ c.operator = d.operator ∧ List.Forall₂ Equal c.values d.values
  filter (f g : Filter) : Equal f g ↔
    f.combinator = g.combinator ∧ List.Forall₂ Equal f.conditions g.conditions ∧
      List.Forall₂ Equal f.subfilters g.subfilters
  join (a b : Join) : Equal a b ↔ ∃ filter nested, b = { a with filter, nested } ∧
    Equal a.filter filter ∧ List.Forall₂ Equal a.nested nested
  plan (plan plan' : Plan) : Equal plan plan' ↔
    ∃ filter joins, plan' = { plan with filter, joins } ∧
      Equal plan.filter filter ∧ List.Forall₂ Equal plan.joins joins
  criterion (c d : Criterion) : Equal c d ↔ Equal c.toCondition d.toCondition
  filterDraft (f g : FilterDraft) : Equal f g ↔
    f.combinator = g.combinator ∧ List.Forall₂ Equal f.criteria g.criteria ∧
      List.Forall₂ Equal f.groups g.groups
  /-- A join that is rendered equals no draft, whatever the draft renders to. -/
  rendered (join : Join) (p : PendingJoin) : Equal (.rendered join) p ↔
    ∃ join', p = .rendered join' ∧ Equal join join'
  draft (head : JoinHead) (joins : List PendingJoin) (p : PendingJoin) :
    Equal (.draft head joins) p ↔ ∃ filter joins', p = .draft { head with filter } joins' ∧
      Equal head.filter filter ∧ List.Forall₂ Equal joins joins'
  joinDraft (j k : JoinDraft) : Equal j k ↔ ∃ filter joins, k = { j with filter, joins } ∧
    Equal j.filter filter ∧ List.Forall₂ Equal j.joins joins
  queryDraft (q r : QueryDraft) : Equal q r ↔ ∃ filter joins, r = { q with filter, joins } ∧
    Equal q.filter filter ∧ List.Forall₂ Equal q.joins joins

/-- What is known of `==` on values, plans and drafts. -/
structure EqualityLaws : Prop where
  parts : ComparedByParts
  value : Equivalence (Equal : Value → Value → Prop)
  condition : Equivalence (Equal : Condition → Condition → Prop)
  filter : Equivalence (Equal : Filter → Filter → Prop)
  join : Equivalence (Equal : Join → Join → Prop)
  plan : Equivalence (Equal : Plan → Plan → Prop)
  filterDraft : Equivalence (Equal : FilterDraft → FilterDraft → Prop)
  pendingJoin : Equivalence (Equal : PendingJoin → PendingJoin → Prop)
  joinDraft : Equivalence (Equal : JoinDraft → JoinDraft → Prop)
  queryDraft : Equivalence (Equal : QueryDraft → QueryDraft → Prop)
  decimal (a b : Decimal) : Equal (Value.decimal a) (.decimal b) ↔ a.amount = b.amount
  float64 (x y : Binary64) : Equal (Value.float64 x) (.float64 y) ↔ x.bits = y.bits
  kind (v w : Value) : Equal v w → v.kind = w.kind
  /-- Equal drafts render to equals or fail with one error. -/
  renderFilter (f g : FilterDraft) : Equal f g → Equal f.render g.render
  renderJoin (j k : JoinDraft) : Equal j k → Agree Equal j.render k.render
  renderQuery (q r : QueryDraft) : Equal q r → Agree Equal q.render r.render
  /-- So does one draft that is rendered twice, whatever values it holds. -/
  renderFilterTwice (f : FilterDraft) : Equal f.render f.render
  renderJoinTwice (j : JoinDraft) : Agree Equal j.render j.render
  renderQueryTwice (q : QueryDraft) : Agree Equal q.render q.render

theorem comparedByParts : ComparedByParts where
  value _ _ := by simp only [Value.equal_iff, Decimal.equal_iff_amount]
  condition _ _ := Condition.equal_iff
  filter _ _ := Filter.equal_iff
  join _ _ := Join.equal_iff
  plan _ _ := Plan.equal_iff
  criterion _ _ := Iff.rfl
  filterDraft _ _ := FilterDraft.equal_iff
  rendered := PendingJoin.equal_rendered_iff
  draft := PendingJoin.equal_draft_iff_fields
  joinDraft _ _ := JoinDraft.equal_iff
  queryDraft _ _ := QueryDraft.equal_iff

/-- `==` is an equivalence on values, and on plans and drafts of every depth.  Decimals are equal
if their amounts are, at whatever scales, and floating point numbers if their patterns are. -/
theorem equality_laws : EqualityLaws where
  parts := comparedByParts
  value := equivalence_equal
  condition := equivalence_equal
  filter := equivalence_equal
  join := equivalence_equal
  plan := equivalence_equal
  filterDraft := equivalence_equal
  pendingJoin := equivalence_equal
  joinDraft := equivalence_equal
  queryDraft := equivalence_equal
  decimal _ _ := Decimal.equal_iff_amount
  float64 _ _ := Value.equal_float64_iff
  kind _ _ := Value.kind_eq_of_equal
  renderFilter _ _ := FilterDraft.equal_render
  renderJoin _ _ := JoinDraft.agree_render
  renderQuery _ _ := QueryDraft.agree_render
  renderFilterTwice _ := FilterDraft.equal_render BEq.rfl
  renderJoinTwice _ := JoinDraft.agree_render BEq.rfl
  renderQueryTwice _ := QueryDraft.agree_render BEq.rfl

end EntityQuery
