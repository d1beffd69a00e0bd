import EntityQuery.Proofs.Call.Simulation

/-!
# Interchange of drafts and rendered joins

A join that can be rendered alone may be linked as a draft or as the join that it renders to: no
program around it shows the difference.  One program is `Prerendered` to another if it links some
joins rendered where the other links their drafts, directly, in drafts that it links or in
callbacks at any depth.

The proof is a simulation.  Two pending joins are alike if they are rendered alike below every
entity; two drafts are alike if they differ in alike joins alone; two calls are alike if they take
alike drafts to alike drafts or to one error.  Alike calls make alike callbacks and these make
alike calls again, so that all rests on the join that is exchanged: it may be rendered below any
entity, since it could be rendered below none.  A join with an inherited local end cannot, and is
not exchanged for anything.
-/

namespace EntityQuery

/-! ## Joins that are rendered alike -/

namespace PendingJoin

variable {p q : PendingJoin} {ps ps' : List PendingJoin}

inductive Prerendered : PendingJoin → PendingJoin → Prop
  | same (p : PendingJoin) : Prerendered p p
  | rendered {p : PendingJoin} {join : Join} (h : p.render = .ok join) :
      Prerendered p (.rendered join)
  | draft (head : JoinHead) {joins joins' : List PendingJoin}
      (h : List.Forall₂ Prerendered joins joins') :
      Prerendered (.draft head joins) (.draft head joins')

/-- Two joins that no enclosing join can tell apart. -/
def Alike (p q : PendingJoin) : Prop := ∀ parent, p.renderUnder parent = q.renderUnder parent

theorem Alike.refl (p : PendingJoin) : p.Alike p := fun _ => rfl

theorem alike_all_refl (ps : List PendingJoin) : List.Forall₂ Alike ps ps :=
  List.forall₂_same.2 fun p _ => .refl p

theorem renderAllUnder_congr (h : List.Forall₂ Alike ps ps') (parent : Option String) :
    renderAllUnder parent ps = renderAllUnder parent ps' := by
  induction h with
  | nil => rfl
  | cons hp _ ih => rw [renderAllUnder, renderAllUnder, hp parent, ih]

theorem Alike.draft (head : JoinHead) (h : List.Forall₂ Alike ps ps') :
    (PendingJoin.draft head ps).Alike (.draft head ps') := by
  intro parent
  simp only [renderUnder, renderAllUnder_congr h]

theorem alike_of_prerendered (h : p.Prerendered q) : p.Alike q := by
  induction p using PendingJoin.induction generalizing q with
  | rendered join =>
      cases h with
      | same => exact .refl _
      | rendered h => rw [Except.ok.inj h]; exact .refl _
  | draft head joins ih =>
      cases h with
      | same => exact .refl _
      | rendered h => exact fun parent => renderUnder_of_render h
      | draft _ h => exact .draft head (forall₂_imp_of_mem h fun p hp q hpq => ih p hp hpq)

end PendingJoin

namespace JoinDraft

variable {j k : JoinDraft} {p q : PendingJoin}

/-- Two drafts that differ in alike joins alone. -/
def Alike (j k : JoinDraft) : Prop :=
  ∃ joins, k = { j with joins } ∧ List.Forall₂ PendingJoin.Alike j.joins joins

theorem Alike.refl (j : JoinDraft) : j.Alike j := ⟨j.joins, rfl, PendingJoin.alike_all_refl _⟩

theorem Alike.link (h : j.Alike k) (hp : p.Alike q) : (j.link p).Alike (k.link q) := by
  obtain ⟨joins, rfl, hjoins⟩ := h
  exact ⟨joins ++ [q], rfl, List.rel_append hjoins (.cons hp .nil)⟩

theorem Alike.withColumns (h : j.Alike k) (batch : List String) :
    (Linkable.withColumns j batch).Alike (Linkable.withColumns k batch) := by
  obtain ⟨joins, rfl, hjoins⟩ := h
  unfold Linkable.withColumns
  split
  · exact ⟨joins, rfl, hjoins⟩
  · exact ⟨joins, rfl, hjoins⟩

theorem Alike.pending (h : j.Alike k) : j.pending.Alike k.pending := by
  obtain ⟨joins, rfl, hjoins⟩ := h
  exact .draft _ hjoins

/-- Joins that start at alike drafts are the same. -/
theorem Alike.seed_eq (h : j.Alike k) (localAttribute remoteEntity remoteAttribute : String) :
    k.seed localAttribute remoteEntity remoteAttribute =
      j.seed localAttribute remoteEntity remoteAttribute := by
  obtain ⟨joins, rfl, -⟩ := h
  rfl

theorem alike_simulation : LinkSimulation Alike PendingJoin.Alike where
  empty := .refl .empty
  seed h _ _ _ := by rw [h.seed_eq]; exact .refl _
  link h hp := h.link hp
  withColumns h batch := h.withColumns batch
  pending h := h.pending

end JoinDraft

/-! ## Calls on joins -/

namespace JoinCall

variable {call call' : JoinCall} {calls calls' : List JoinCall} {j k : JoinDraft}

inductive Prerendered : JoinCall → JoinCall → Prop
  | same (call : JoinCall) : Prerendered call call
  | link {p q : PendingJoin} (h : p.Prerendered q) : Prerendered (.link p) (.link q)
  | linkNew {calls calls' : List JoinCall} (h : List.Forall₂ Prerendered calls calls') :
      Prerendered (.linkNew calls) (.linkNew calls')
  | linkWith (localAttribute remoteEntity remoteAttribute : String) (batch : List String)
      {calls calls' : List JoinCall} (h : List.Forall₂ Prerendered calls calls') :
      Prerendered (.linkWith localAttribute remoteEntity remoteAttribute batch calls)
        (.linkWith localAttribute remoteEntity remoteAttribute batch calls')
  | tryLinkWith (localAttribute remoteEntity remoteAttribute : String) (batch : List String)
      {calls calls' : List JoinCall} (h : List.Forall₂ Prerendered calls calls') :
      Prerendered (.tryLinkWith localAttribute remoteEntity remoteAttribute batch calls)
        (.tryLinkWith localAttribute remoteEntity remoteAttribute batch calls')
  | attempt {call call' : JoinCall} (h : Prerendered call call') :
      Prerendered (.attempt call) (.attempt call')

/-- Two calls that take alike drafts to alike drafts, or to one error. -/
def Alike (call call' : JoinCall) : Prop :=
  ∀ ⦃j k : JoinDraft⦄, j.Alike k → Agree JoinDraft.Alike (call.apply j) (call'.apply k)

/-- A call does to a draft what it does to the draft with other joins. -/
theorem Alike.refl (call : JoinCall) : call.Alike call := by
  rintro j _ ⟨joins, rfl, hjoins⟩
  rw [apply_withJoins call j joins]
  cases hcall : call.apply j with
  | error e => exact .error e
  | ok changed =>
      refine .ok ⟨joins ++ call.added j, rfl, ?_⟩
      rw [joins_of_apply hcall]
      exact List.rel_append hjoins (PendingJoin.alike_all_refl _)

theorem alike_applyEach (h : List.Forall₂ Alike calls calls') (hj : j.Alike k) :
    (applyEach calls j).Alike (applyEach calls' k) := rel_applyEach h hj

theorem alike_of_prerendered (h : call.Prerendered call') : call.Alike call' := by
  induction call using JoinCall.induction generalizing call' with
  | step call ih =>
      cases h with
      | same => exact .refl _
      | link h =>
          exact Respects.link JoinDraft.alike_simulation (PendingJoin.alike_of_prerendered h)
      | linkNew h =>
          exact Respects.linkNew JoinDraft.alike_simulation
            (forall₂_imp_of_mem h fun c hc c' => ih c hc)
      | linkWith _ _ _ _ h =>
          exact Respects.linkWith JoinDraft.alike_simulation _ _ _ _
            (forall₂_imp_of_mem h fun c hc c' => ih c hc)
      | tryLinkWith _ _ _ _ h =>
          exact Respects.tryLinkWith JoinDraft.alike_simulation _ _ _ _
            (forall₂_imp_of_mem h fun c hc c' => ih c hc)
      | attempt h => exact Respects.attempt (ih _ (List.mem_singleton.2 rfl) h)

theorem alike_all_of_prerendered (h : List.Forall₂ Prerendered calls calls') :
    List.Forall₂ Alike calls calls' :=
  h.imp fun _ _ => alike_of_prerendered

end JoinCall

/-! ## Calls on queries -/

namespace QueryDraft

variable {q r : QueryDraft}

/-- Two queries that differ in alike joins alone. -/
def Alike (q r : QueryDraft) : Prop :=
  ∃ joins, r = { q with joins } ∧ List.Forall₂ PendingJoin.Alike q.joins joins

theorem Alike.link {p p' : PendingJoin} (h : q.Alike r) (hp : p.Alike p') :
    (q.link p).Alike (r.link p') := by
  obtain ⟨joins, rfl, hjoins⟩ := h
  exact ⟨joins ++ [p'], rfl, List.rel_append hjoins (.cons hp .nil)⟩

theorem Alike.seed_eq (h : q.Alike r) (localAttribute remoteEntity remoteAttribute : String) :
    r.seed localAttribute remoteEntity remoteAttribute =
      q.seed localAttribute remoteEntity remoteAttribute := by
  obtain ⟨joins, rfl, -⟩ := h
  rfl

theorem alike_simulation : QuerySimulation Alike JoinDraft.Alike PendingJoin.Alike where
  toLinkSimulation := JoinDraft.alike_simulation
  seedOfQuery h _ _ _ := by rw [h.seed_eq]; exact .refl _
  linkToQuery h hp := h.link hp

theorem Alike.render_eq (h : q.Alike r) : q.render = r.render := by
  obtain ⟨joins, rfl, hjoins⟩ := h
  rw [QueryDraft.render, QueryDraft.render, PendingJoin.renderAllUnder_congr hjoins]

/-- A query with one more join fails as before, or as the join does, or has the join last. -/
theorem render_link (q : QueryDraft) (j : JoinDraft) : (q.link j.pending).render =
    (q.render >>= fun plan => j.render >>= fun join =>
      .ok { plan with joins := plan.joins ++ [join] }) := by
  rw [QueryDraft.render, QueryDraft.render, QueryDraft.link, PendingJoin.renderAllUnder_append,
    PendingJoin.renderAllUnder_singleton, JoinDraft.render, PendingJoin.render]
  cases PendingJoin.renderAllUnder none q.joins with
  | error e => rfl
  | ok joins => cases j.pending.renderUnder none <;> rfl

end QueryDraft

namespace QueryCall

variable {call call' : QueryCall} {calls calls' : List QueryCall} {q r : QueryDraft}

inductive Prerendered : QueryCall → QueryCall → Prop
  | same (call : QueryCall) : Prerendered call call
  | link {p p' : PendingJoin} (h : p.Prerendered p') : Prerendered (.link p) (.link p')
  | linkNew {calls calls' : List JoinCall} (h : List.Forall₂ JoinCall.Prerendered calls calls') :
      Prerendered (.linkNew calls) (.linkNew calls')
  | linkWith (localAttribute remoteEntity remoteAttribute : String) (batch : List String)
      {calls calls' : List JoinCall} (h : List.Forall₂ JoinCall.Prerendered calls calls') :
      Prerendered (.linkWith localAttribute remoteEntity remoteAttribute batch calls)
        (.linkWith localAttribute remoteEntity remoteAttribute batch calls')
  | tryLinkWith (localAttribute remoteEntity remoteAttribute : String) (batch : List String)
      {calls calls' : List JoinCall} (h : List.Forall₂ JoinCall.Prerendered calls calls') :
      Prerendered (.tryLinkWith localAttribute remoteEntity remoteAttribute batch calls)
        (.tryLinkWith localAttribute remoteEntity remoteAttribute batch calls')

theorem agree_apply_self (call : QueryCall) (hq : q.Alike r) :
    Agree QueryDraft.Alike (call.apply q) (call.apply r) := by
  obtain ⟨joins, rfl, hjoins⟩ := hq
  rw [apply_withJoins call q joins]
  cases hcall : call.apply q with
  | error e => exact .error e
  | ok changed =>
      refine .ok ⟨joins ++ call.added q, rfl, ?_⟩
      rw [joins_of_apply hcall]
      exact List.rel_append hjoins (PendingJoin.alike_all_refl _)

theorem respects_of_prerendered (h : call.Prerendered call') :
    Respects QueryDraft.Alike call call' := by
  cases h with
  | same => exact fun _ _ hq => agree_apply_self call hq
  | link h => exact .link QueryDraft.alike_simulation (PendingJoin.alike_of_prerendered h)
  | linkNew h =>
      exact .linkNew QueryDraft.alike_simulation (JoinCall.alike_all_of_prerendered h)
  | linkWith localAttribute remoteEntity remoteAttribute batch h =>
      exact .linkWith QueryDraft.alike_simulation _ _ _ _ (JoinCall.alike_all_of_prerendered h)
  | tryLinkWith localAttribute remoteEntity remoteAttribute batch h =>
      exact .tryLinkWith QueryDraft.alike_simulation _ _ _ _ (JoinCall.alike_all_of_prerendered h)

theorem alike_applyEach (h : List.Forall₂ Prerendered calls calls') (hq : q.Alike r) :
    (applyEach calls q).Alike (applyEach calls' r) :=
  rel_applyEach (h.imp fun _ _ => respects_of_prerendered) hq

/-- To link the draft of a join and to link what it renders to make no difference to any query or
join around it, whatever is called before and after.  A link adds the failure of its join after
those of the query, and the join after its joins. -/
theorem render_of_prerendered :
    (∀ (q : QueryDraft) (joins : List PendingJoin) (calls calls' : List QueryCall),
      List.Forall₂ PendingJoin.Prerendered q.joins joins →
      List.Forall₂ Prerendered calls calls' →
        (applyEach calls q).render = (applyEach calls' { q with joins }).render) ∧
    (∀ (j : JoinDraft) (joins : List PendingJoin) (calls calls' : List JoinCall)
      (parent : Option String),
      List.Forall₂ PendingJoin.Prerendered j.joins joins →
      List.Forall₂ JoinCall.Prerendered calls calls' →
        (JoinCall.applyEach calls j).pending.renderUnder parent =
          (JoinCall.applyEach calls' { j with joins }).pending.renderUnder parent ∧
        (JoinCall.applyAll calls j >>= fun changed => changed.pending.renderUnder parent) =
          (JoinCall.applyAll calls' { j with joins } >>= fun changed =>
            changed.pending.renderUnder parent)) ∧
    ∀ (q : QueryDraft) (j : JoinDraft), (q.link j.pending).render =
      (q.render >>= fun plan => j.render >>= fun join =>
        .ok { plan with joins := plan.joins ++ [join] }) := by
  refine ⟨?_, ?_, QueryDraft.render_link⟩
  · intro q joins calls calls' hjoins hcalls
    have hq : q.Alike { q with joins } :=
      ⟨joins, rfl, hjoins.imp fun _ _ => PendingJoin.alike_of_prerendered⟩
    exact (alike_applyEach hcalls hq).render_eq
  · intro j joins calls calls' parent hjoins hcalls
    have hj : j.Alike { j with joins } :=
      ⟨joins, rfl, hjoins.imp fun _ _ => PendingJoin.alike_of_prerendered⟩
    have hcalls := JoinCall.alike_all_of_prerendered hcalls
    exact ⟨(JoinCall.alike_applyEach hcalls hj).pending parent,
      (JoinCall.agree_applyAll hcalls hj).bind_eq fun _ _ h => h.pending parent⟩

def partner : JoinDraft :=
  ((JoinDraft.empty.fromEntity "account" "partnerid").toEntity "partner" "partnerid").link
    (JoinDraft.empty.seed "countryid" "country" "countryid").pending

def accountCalls (join : PendingJoin) : List JoinCall :=
  [.linkTo "ownerid" "user" "userid", .attempt (.columns (.addStrict ["name", "name"])),
    .link join, .toEntity "account" "accountid"]

theorem render_of_prerendered_partner : ∃ join, partner.render = .ok join ∧
    (applyEach [.linkWith "customerid" "account" "customerid" [] (accountCalls partner.pending),
        .forEntity "order"] (.new "invoice")).render =
      (applyEach [.linkWith "customerid" "account" "customerid" [] (accountCalls (.rendered join)),
        .forEntity "order"] (.new "invoice")).render ∧
    (JoinCall.applyEach (accountCalls partner.pending) .empty).pending.renderUnder "invoice" =
      (JoinCall.applyEach (accountCalls (.rendered join)) .empty).pending.renderUnder "invoice" := by
  obtain ⟨join, h⟩ : ∃ join, partner.render = .ok join := ⟨_, rfl⟩
  have hcalls : List.Forall₂ JoinCall.Prerendered (accountCalls partner.pending)
      (accountCalls (.rendered join)) :=
    .cons (.same _) (.cons (.same _) (.cons (.link (.rendered h)) (.cons (.same _) .nil)))
  refine ⟨join, h, ?_, ?_⟩
  · exact render_of_prerendered.1 _ [] _ _ .nil
      (.cons (.linkWith _ _ _ _ hcalls) (.cons (.same _) .nil))
  · exact (render_of_prerendered.2.1 .empty [] _ _ _ .nil hcalls).1

end QueryCall

end EntityQuery
