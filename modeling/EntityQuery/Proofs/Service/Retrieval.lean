import EntityQuery.Proofs.Draft.Rendering
import EntityQuery.Service.Retrieval

/-!
# Requests to a service

A request renders its query, and a query that cannot be rendered ends it there: the service is not
asked, and nothing is reported.  Otherwise the service is asked once, for the plan that was rendered,
and its answer is handed on as it is, between three reports.  A request for the first row is the same
request for the plan with other paging, of whose answer it keeps the first row.

The equations below hold in every monad, so for every kind of service; the outcome of a request is
then read off them for a service that is a function of its state.
-/

namespace EntityQuery

variable {σ ρ τ : Type}

/-! ## Requests as computations -/

def closingEvent (plan : Plan) : Except ServiceError (List Record) → Event
  | .ok rows => .returned plan.entity rows.length
  | .error e => .failed plan.entity e.message

def Event.heading (e : Event) : Level × String := (e.level, e.message)

namespace QueryDraft

variable {m : Type → Type} [Monad m] [LawfulMonad m] [MonadTrace m]

theorem retrieve_of_render_error {q : QueryDraft} {e : BuildError} (h : q.render = .error e)
    (execute : Executor m) : q.retrieve execute = pure (.error (.build e)) := by
  simp [retrieve, renderTraced, h]

/-- The service is asked between the second report and the third. -/
theorem retrieve_of_render_ok {q : QueryDraft} {plan : Plan} (h : q.render = .ok plan)
    (execute : Executor m) : q.retrieve execute = (do
      trace (renderEvent plan)
      trace (.executing plan.entity plan.joinCount)
      let answer ← execute plan
      trace (closingEvent plan answer)
      return answer) := by
  simp only [retrieve, renderTraced, h, bind_assoc, pure_bind]
  refine bind_congr fun _ => bind_congr fun _ => bind_congr fun answer => ?_
  cases answer <;> rfl

/-- To ask for one row changes the paging of the plan and nothing else. -/
theorem render_onlyFirst (q : QueryDraft) :
    q.onlyFirst.render = q.render.map fun plan => { plan with paging := some .single } := by
  have hjoins : q.onlyFirst.joins = q.joins := rfl
  rw [render, render, hjoins]
  cases PendingJoin.renderAllUnder none q.joins <;> rfl

end QueryDraft

/-! ## Outcomes -/

/-- A service with a state of its own, which answers a plan and goes on in a new state. -/
abbrev Service (σ : Type) := Plan → σ → Except ServiceError (List Record) × σ

/-- What comes of a request: its result, the state that the service is left in, and what was
reported. -/
structure Outcome (σ ρ : Type) where
  result : Except ServiceError ρ
  state : σ
  events : List Event

def Outcome.map (f : ρ → τ) (outcome : Outcome σ ρ) : Outcome σ τ :=
  ⟨outcome.result.map f, outcome.state, outcome.events⟩

def outcomeOf (request : StateT σ Traced (Except ServiceError ρ)) (state : σ) : Outcome σ ρ :=
  let ((result, after), events) := (request.run state).run []
  ⟨result, after, events⟩

namespace Service

/-- A service as a computation, which reports nothing itself. -/
def execute (service : Service σ) : Executor (StateT σ Traced) :=
  fun plan state => pure (service plan state)

/-- The same service when it also keeps the plans that it is sent. -/
def recorded (service : Service σ) : Service (σ × List Plan) := fun plan (state, sent) =>
  ((service plan state).1, (service plan state).2, sent ++ [plan])

/-- A service whose answers do not depend on the paging of the plan. -/
def IgnoresPaging (service : Service σ) : Prop :=
  ∀ plan paging, service { plan with paging } = service plan

def served (service : Service σ) (plan : Plan) (state : σ) : Outcome σ (List Record) where
  result := (service plan state).1
  state := (service plan state).2
  events := [QueryDraft.renderEvent plan, .executing plan.entity plan.joinCount,
    closingEvent plan (service plan state).1]

variable (service : Service σ) (q : QueryDraft) (state : σ)

/-- A query that cannot be rendered leaves the service as it is; any other is asked for once. -/
theorem outcomeOf_retrieve : outcomeOf (q.retrieve service.execute) state =
    match q.render with
    | .error e => ⟨.error (.build e), state, []⟩
    | .ok plan => service.served plan state := by
  cases h : q.render with
  | error e => rw [q.retrieve_of_render_error h]; rfl
  | ok plan => rw [q.retrieve_of_render_ok h]; rfl

theorem outcomeOf_retrieveFirst : outcomeOf (q.retrieveFirst service.execute) state =
    match q.render with
    | .error e => ⟨.error (.build e), state, []⟩
    | .ok plan => (service.served { plan with paging := some .single } state).map List.head? := by
  -- The first row is taken of the answer after the last report.
  have hfirst : outcomeOf (q.retrieveFirst service.execute) state =
      (outcomeOf (q.onlyFirst.retrieve service.execute) state).map List.head? := rfl
  rw [hfirst, outcomeOf_retrieve, q.render_onlyFirst]
  cases q.render <;> rfl

/-- Without a look at the paging, a plan is served as it is with any other. -/
theorem served_of_ignoresPaging {service : Service σ} (h : service.IgnoresPaging) (plan : Plan)
    (paging : Option Paging) (state : σ) :
    service.served { plan with paging } state = service.served plan state := by
  unfold served
  rw [h plan paging]
  cases (service plan state).1 <;> rfl

/-- What the two requests for a query come to, at a service in some state. -/
structure Answers (service : Service σ) (q : QueryDraft) (state : σ) : Prop where
  all : outcomeOf (q.retrieve service.execute) state =
    match q.render with
    | .error e => ⟨.error (.build e), state, []⟩
    | .ok plan => service.served plan state
  /-- The request for the first row, which fails to render where the other one does. -/
  first : outcomeOf (q.retrieveFirst service.execute) state =
    match q.render with
    | .error e => ⟨.error (.build e), state, []⟩
    | .ok plan => (service.served { plan with paging := some .single } state).map List.head?
  /-- The plan that was rendered is sent once, and none is if there is no such plan. -/
  sent (before : List Plan) :
    (outcomeOf (q.retrieve service.recorded.execute) (state, before)).state.2 =
      before ++ q.render.toOption.toList
  sentFirst (before : List Plan) :
    (outcomeOf (q.retrieveFirst service.recorded.execute) (state, before)).state.2 =
      before ++ q.onlyFirst.render.toOption.toList
  onlyFirst : q.onlyFirst.render = q.render.map fun plan => { plan with paging := some .single }
  headings (plan : Plan) : (service.served plan state).events.map Event.heading =
    [(.trace, "rendered query plan"), (.debug, "executing query"),
      match (service plan state).1 with
      | .ok _ => (.debug, "query returned")
      | .error _ => (.warn, "query failed")]
  head (h : service.IgnoresPaging) :
    outcomeOf (q.retrieveFirst service.execute) state =
      (outcomeOf (q.retrieve service.execute) state).map List.head?

/-- A request for rows asks the service once for the plan of its query, reports that, and hands on
the answer.  A request for the first row does the same for the plan with other paging. -/
theorem answers_requests : Answers service q state where
  all := service.outcomeOf_retrieve q state
  first := service.outcomeOf_retrieveFirst q state
  sent before := by
    rw [outcomeOf_retrieve]
    cases q.render with
    | error e => exact (List.append_nil before).symm
    | ok plan => rfl
  sentFirst before := by
    rw [outcomeOf_retrieveFirst, q.render_onlyFirst]
    cases q.render with
    | error e => exact (List.append_nil before).symm
    | ok plan => rfl
  onlyFirst := q.render_onlyFirst
  headings plan := by
    unfold served
    cases (service plan state).1 <;> rfl
  head h := by
    rw [outcomeOf_retrieveFirst, outcomeOf_retrieve]
    cases q.render with
    | error e => rfl
    | ok plan => exact congrArg (Outcome.map List.head?) (served_of_ignoresPaging h plan _ state)

def contacts : Service Nat := fun _ requests =>
  (.ok [.new "contact" .nil, .new "account" .nil], requests + 1)

/-- The first contact, whatever page was asked for. -/
theorem answers_requests_contacts : contacts.IgnoresPaging ∧
    outcomeOf (((QueryDraft.new "contact").page ⟨50, 2, true, none⟩).retrieveFirst
      contacts.execute) 3 =
      ⟨.ok (some (.new "contact" .nil)), 4,
        [.planRendered "contact" 0 0 0, .executing "contact" 0, .returned "contact" 2]⟩ := by
  have hignores : contacts.IgnoresPaging := fun _ _ => rfl
  exact ⟨hignores, (answers_requests contacts _ 3).head hignores⟩

end Service

end EntityQuery
