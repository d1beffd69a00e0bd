import EntityQuery.Proofs.Call.Calculus

/-!
# Calls on related drafts

Two programs run side by side, on drafts that are related and with calls that are.  Which relations
carry over from the calls to the programs does not depend on what they say: a relation between
drafts has to be kept by links, by seeds and by columns, and then links with related callbacks are
related again.  Calls that answer related drafts or one error are composed by the same rules
everywhere.
-/

namespace EntityQuery

theorem Agree.keepOnError {ε α β : Type} {R : α → β → Prop} {x : Except ε α} {y : Except ε β}
    {a : α} {b : β} (hab : R a b) (h : Agree R x y) : R (keepOnError a x) (keepOnError b y) := by
  cases h with
  | ok h => exact h
  | error e => exact hab

/-! ## Relations between drafts -/

/-- A relation between join drafts and one between pending joins that links keep. -/
structure LinkSimulation (R : JoinDraft → JoinDraft → Prop)
    (P : PendingJoin → PendingJoin → Prop) : Prop where
  empty : R .empty .empty
  seed {j k : JoinDraft} (h : R j k) (localAttribute remoteEntity remoteAttribute : String) :
    R (j.seed localAttribute remoteEntity remoteAttribute)
      (k.seed localAttribute remoteEntity remoteAttribute)
  link {j k : JoinDraft} {p q : PendingJoin} (h : R j k) (hp : P p q) : R (j.link p) (k.link q)
  withColumns {j k : JoinDraft} (h : R j k) (batch : List String) :
    R (Linkable.withColumns j batch) (Linkable.withColumns k batch)
  pending {j k : JoinDraft} (h : R j k) : P j.pending k.pending

/-- A relation between queries that goes with relations between the joins that they link. -/
structure QuerySimulation (Q : QueryDraft → QueryDraft → Prop) (R : JoinDraft → JoinDraft → Prop)
    (P : PendingJoin → PendingJoin → Prop) : Prop extends LinkSimulation R P where
  seedOfQuery {q r : QueryDraft} (h : Q q r)
    (localAttribute remoteEntity remoteAttribute : String) :
    R (q.seed localAttribute remoteEntity remoteAttribute)
      (r.seed localAttribute remoteEntity remoteAttribute)
  linkToQuery {q r : QueryDraft} {p p' : PendingJoin} (h : Q q r) (hp : P p p') :
    Q (q.link p) (r.link p')

/-! ## Calls on joins -/

namespace JoinCall

variable {R : JoinDraft → JoinDraft → Prop} {P : PendingJoin → PendingJoin → Prop}
  {call call' : JoinCall} {calls calls' : List JoinCall} {j k : JoinDraft}

/-- Two calls that take related drafts to related drafts, or to one error. -/
def Respects (R : JoinDraft → JoinDraft → Prop) (call call' : JoinCall) : Prop :=
  ∀ ⦃j k : JoinDraft⦄, R j k → Agree R (call.apply j) (call'.apply k)

theorem agree_applyAll (h : List.Forall₂ (Respects R) calls calls') (hj : R j k) :
    Agree R (applyAll calls j) (applyAll calls' k) := by
  induction h generalizing j k with
  | nil => exact .ok hj
  | cons hcall _ ih =>
      rw [applyAll_cons, applyAll_cons]
      exact (hcall hj).bind fun _ _ hchanged => ih hchanged

theorem rel_applyEach (h : List.Forall₂ (Respects R) calls calls') (hj : R j k) :
    R (applyEach calls j) (applyEach calls' k) := by
  induction h generalizing j k with
  | nil => exact hj
  | cons hcall _ ih =>
      rw [applyEach, applyEach]
      exact ih ((hcall hj).keepOnError hj)

theorem Respects.attempt (h : Respects R call call') :
    Respects R (.attempt call) (.attempt call') :=
  fun _ _ hj => .ok ((h hj).keepOnError hj)

section Links

variable (sim : LinkSimulation R P)

include sim

theorem Respects.link {p q : PendingJoin} (hp : P p q) : Respects R (.link p) (.link q) :=
  fun _ _ hj => .ok (sim.link hj hp)

theorem Respects.linkTo (localAttribute remoteEntity remoteAttribute : String) :
    Respects R (.linkTo localAttribute remoteEntity remoteAttribute)
      (.linkTo localAttribute remoteEntity remoteAttribute) := by
  intro j k hj
  rw [apply_linkTo, apply_linkTo]
  exact .ok (sim.link hj (sim.pending (sim.seed hj ..)))

theorem Respects.linkNew (h : List.Forall₂ (Respects R) calls calls') :
    Respects R (.linkNew calls) (.linkNew calls') := by
  intro j k hj
  rw [apply_linkNew, apply_linkNew]
  exact (agree_applyAll h sim.empty).map fun _ _ hjoin => sim.link hj (sim.pending hjoin)

theorem Respects.linkWith (localAttribute remoteEntity remoteAttribute : String)
    (batch : List String) (h : List.Forall₂ (Respects R) calls calls') :
    Respects R (.linkWith localAttribute remoteEntity remoteAttribute batch calls)
      (.linkWith localAttribute remoteEntity remoteAttribute batch calls') := by
  intro j k hj
  rw [apply_linkWith, apply_linkWith]
  have hjoin := rel_applyEach h (sim.seed hj localAttribute remoteEntity remoteAttribute)
  exact .ok (sim.link hj (sim.pending (sim.withColumns hjoin batch)))

theorem Respects.tryLinkWith (localAttribute remoteEntity remoteAttribute : String)
    (batch : List String) (h : List.Forall₂ (Respects R) calls calls') :
    Respects R (.tryLinkWith localAttribute remoteEntity remoteAttribute batch calls)
      (.tryLinkWith localAttribute remoteEntity remoteAttribute batch calls') := by
  intro j k hj
  rw [apply_tryLinkWith, apply_tryLinkWith]
  have hjoin := agree_applyAll h (sim.seed hj localAttribute remoteEntity remoteAttribute)
  exact hjoin.map fun _ _ hjoin => sim.link hj (sim.pending (sim.withColumns hjoin batch))

end Links

end JoinCall

/-! ## Calls on queries -/

namespace QueryCall

variable {Q : QueryDraft → QueryDraft → Prop} {R : JoinDraft → JoinDraft → Prop}
  {P : PendingJoin → PendingJoin → Prop} {calls calls' : List QueryCall} {q r : QueryDraft}

/-- Two calls that take related queries to related queries, or to one error. -/
def Respects (Q : QueryDraft → QueryDraft → Prop) (call call' : QueryCall) : Prop :=
  ∀ ⦃q r : QueryDraft⦄, Q q r → Agree Q (call.apply q) (call'.apply r)

theorem rel_applyEach (h : List.Forall₂ (Respects Q) calls calls') (hq : Q q r) :
    Q (applyEach calls q) (applyEach calls' r) := by
  induction h generalizing q r with
  | nil => exact hq
  | cons hcall _ ih =>
      rw [applyEach_cons, applyEach_cons]
      exact ih ((hcall hq).keepOnError hq)

section Links

variable (sim : QuerySimulation Q R P) {joinCalls joinCalls' : List JoinCall}

include sim

theorem Respects.link {p p' : PendingJoin} (hp : P p p') : Respects Q (.link p) (.link p') :=
  fun _ _ hq => .ok (sim.linkToQuery hq hp)

theorem Respects.linkTo (localAttribute remoteEntity remoteAttribute : String) :
    Respects Q (.linkTo localAttribute remoteEntity remoteAttribute)
      (.linkTo localAttribute remoteEntity remoteAttribute) := by
  intro q r hq
  rw [apply_linkTo, apply_linkTo]
  exact .ok (sim.linkToQuery hq (sim.pending (sim.seedOfQuery hq ..)))

theorem Respects.linkNew (h : List.Forall₂ (JoinCall.Respects R) joinCalls joinCalls') :
    Respects Q (.linkNew joinCalls) (.linkNew joinCalls') := by
  intro q r hq
  rw [apply_linkNew, apply_linkNew]
  exact (JoinCall.agree_applyAll h sim.empty).map
    fun _ _ hjoin => sim.linkToQuery hq (sim.pending hjoin)

theorem Respects.linkWith (localAttribute remoteEntity remoteAttribute : String)
    (batch : List String) (h : List.Forall₂ (JoinCall.Respects R) joinCalls joinCalls') :
    Respects Q (.linkWith localAttribute remoteEntity remoteAttribute batch joinCalls)
      (.linkWith localAttribute remoteEntity remoteAttribute batch joinCalls') := by
  intro q r hq
  rw [apply_linkWith, apply_linkWith]
  have hjoin := JoinCall.rel_applyEach h
    (sim.seedOfQuery hq localAttribute remoteEntity remoteAttribute)
  exact .ok (sim.linkToQuery hq (sim.pending (sim.withColumns hjoin batch)))

theorem Respects.tryLinkWith (localAttribute remoteEntity remoteAttribute : String)
    (batch : List String) (h : List.Forall₂ (JoinCall.Respects R) joinCalls joinCalls') :
    Respects Q (.tryLinkWith localAttribute remoteEntity remoteAttribute batch joinCalls)
      (.tryLinkWith localAttribute remoteEntity remoteAttribute batch joinCalls') := by
  intro q r hq
  rw [apply_tryLinkWith, apply_tryLinkWith]
  have hjoin := JoinCall.agree_applyAll h
    (sim.seedOfQuery hq localAttribute remoteEntity remoteAttribute)
  exact hjoin.map
    fun _ _ hjoin => sim.linkToQuery hq (sim.pending (sim.withColumns hjoin batch))

end Links

end QueryCall

end EntityQuery
