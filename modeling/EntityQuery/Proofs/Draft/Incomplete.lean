import EntityQuery.Proofs.Draft.Rendering

/-!
# Incomplete joins

Which queries can be rendered, and which join is reported of those that cannot.  The join drafts of
a pending forest are listed in the order in which they are rendered, each with whether another
draft encloses it.  That is all that decides: a draft needs a remote end and a local end whose
entity is known, and below another draft an inherited entity is known.  The first draft of the
listing that lacks an end gives the error.
-/

namespace EntityQuery

/-- A join draft at its place: on a query, or enclosed by another draft. -/
structure JoinSite where
  head : JoinHead
  enclosed : Bool

namespace JoinSite

/-- Whether the entity of the local end is known: an inherited one is, where there is an enclosing
draft to take it from. -/
def hasSource (site : JoinSite) : Bool :=
  match site.head.source with
  | none => false
  | some (.fixed _) => true
  | some (.inherited _) => site.enclosed

/-- Whether both ends of the join are known. -/
def isComplete (site : JoinSite) : Bool := site.hasSource && site.head.target.isSome

/-- The error of an incomplete join.  The local end is reported where both are missing. -/
def error (site : JoinSite) : BuildError :=
  .incompleteJoin ((site.head.source.map LocalEnd.attr).getD "")
    ((site.head.target.map Endpoint.entity).getD "") (if site.hasSource then .target else .source)

theorem isComplete_iff_of_enclosed {site : JoinSite} (h : site.enclosed = true) :
    site.isComplete = true ↔ site.head.source.isSome ∧ site.head.target.isSome := by
  rw [isComplete, hasSource, h, Bool.and_eq_true]
  cases site.head.source with
  | none => simp
  | some source => cases source <;> simp

theorem isComplete_iff_of_not_enclosed {site : JoinSite} (h : site.enclosed = false) :
    site.isComplete = true ↔
      (∃ endpoint, site.head.source = some (.fixed endpoint)) ∧ site.head.target.isSome := by
  rw [isComplete, hasSource, h, Bool.and_eq_true]
  cases site.head.source with
  | none => simp
  | some source => cases source <;> simp

/-- Rendering the ends of a draft fails exactly where its site is incomplete. -/
theorem failure?_ends (head : JoinHead) (parent : Option String) :
    failure? (head.ends parent) =
      if isComplete ⟨head, parent.isSome⟩ then none else some (error ⟨head, parent.isSome⟩) := by
  unfold JoinHead.ends isComplete error hasSource
  rcases hs : head.source with _ | ⟨endpoint⟩ | ⟨attr⟩
  · simp [failure?]
  · cases head.target <;> simp [failure?, LocalEnd.entity?]
  · cases parent <;> cases head.target <;> simp [failure?, LocalEnd.entity?]

end JoinSite

namespace PendingJoin

mutual

/-- The join drafts of a pending join in rendering order: a draft before those nested in it. -/
def sites (enclosed : Bool) : PendingJoin → List JoinSite
  | rendered _ => []
  | draft head joins => ⟨head, enclosed⟩ :: sitesAll true joins

def sitesAll (enclosed : Bool) : List PendingJoin → List JoinSite
  | [] => []
  | p :: ps => p.sites enclosed ++ sitesAll enclosed ps

end

def firstError (sites : List JoinSite) : Option BuildError :=
  (sites.find? fun site => !site.isComplete).map JoinSite.error

theorem firstError_cons (site : JoinSite) (sites : List JoinSite) :
    firstError (site :: sites) =
      if site.isComplete then firstError sites else some site.error := by
  cases h : site.isComplete <;> simp [firstError, h]

theorem firstError_append (before after : List JoinSite) :
    firstError (before ++ after) = (firstError before).or (firstError after) := by
  simp [firstError, List.find?_append, Option.map_or]

theorem firstError_eq_none {sites : List JoinSite} :
    firstError sites = none ↔ ∀ site ∈ sites, site.isComplete = true := by
  simp [firstError]

theorem firstError_eq_some {sites : List JoinSite} {e : BuildError} :
    firstError sites = some e ↔ ∃ before site after, sites = before ++ site :: after ∧
      (∀ s ∈ before, s.isComplete = true) ∧ site.isComplete = false ∧ e = site.error := by
  rw [firstError, Option.map_eq_some_iff]
  constructor
  · rintro ⟨site, hfound, rfl⟩
    obtain ⟨hsite, before, after, rfl, hbefore⟩ := List.find?_eq_some_iff_append.1 hfound
    exact ⟨before, site, after, rfl, by simpa using hbefore, by simpa using hsite, rfl⟩
  · rintro ⟨before, site, after, rfl, hbefore, hsite, rfl⟩
    refine ⟨site, List.find?_eq_some_iff_append.2 ⟨by simp [hsite], before, after, rfl, ?_⟩, rfl⟩
    simpa using hbefore

mutual

/-- A pending join fails as the first incomplete draft in it.  The listing need not carry the entity
of the enclosing join: drafts are reached below a draft that has a remote end. -/
theorem failure?_renderUnder (parent : Option String) (p : PendingJoin) :
    failure? (p.renderUnder parent) = firstError (p.sites parent.isSome) := by
  cases p with
  | rendered join => rfl
  | draft head joins =>
      have hnested : ∀ ends : JoinEnds, failure? (renderAllUnder (some ends.target.entity) joins >>=
          fun nested => pure (head.node ends nested)) = firstError (sitesAll true joins) := by
        intro ends
        rw [failure?_bind _ _ none fun _ _ => rfl, failure?_renderAllUnder, Option.or_none]
        rfl
      rw [renderUnder, failure?_bind _ _ _ fun ends _ => hnested ends, JoinSite.failure?_ends,
        sites, firstError_cons]
      split <;> simp

/-- Joins in a row fail as the first incomplete draft in them. -/
theorem failure?_renderAllUnder (parent : Option String) (ps : List PendingJoin) :
    failure? (renderAllUnder parent ps) = firstError (sitesAll parent.isSome ps) := by
  cases ps with
  | nil => rfl
  | cons p ps =>
      have hrest : ∀ join : Join, failure? (renderAllUnder parent ps >>=
          fun joins => pure (join :: joins)) = firstError (sitesAll parent.isSome ps) := by
        intro join
        rw [failure?_bind _ _ none fun _ _ => rfl, failure?_renderAllUnder, Option.or_none]
      rw [renderAllUnder, failure?_bind _ _ _ fun join _ => hrest join, failure?_renderUnder,
        sitesAll, firstError_append]

end

end PendingJoin

namespace QueryDraft

/-- The join drafts of a query in rendering order. -/
def sites (q : QueryDraft) : List JoinSite := PendingJoin.sitesAll false q.joins

theorem failure?_render (q : QueryDraft) : failure? q.render = PendingJoin.firstError q.sites := by
  rw [render, failure?_bind _ _ none fun _ _ => rfl, PendingJoin.failure?_renderAllUnder,
    Option.or_none]
  rfl

/-- A query can be rendered exactly when every join draft in it knows both of its ends: on the query
itself the local end is named, below another draft it is named or inherited.  Otherwise the first
draft without an end is reported, with what it has of its ends. -/
theorem render_iff_sites_complete (q : QueryDraft) :
    ((∃ plan, q.render = .ok plan) ↔ ∀ site ∈ q.sites, site.head.target.isSome = true ∧
      if site.enclosed then site.head.source.isSome = true
      else ∃ endpoint, site.head.source = some (.fixed endpoint)) ∧
    ∀ e, q.render = .error e ↔ ∃ before site after, q.sites = before ++ site :: after ∧
      (∀ s ∈ before, s.isComplete = true) ∧ site.isComplete = false ∧
        e = .incompleteJoin ((site.head.source.map LocalEnd.attr).getD "")
          ((site.head.target.map Endpoint.entity).getD "")
          (if site.hasSource then .target else .source) := by
  constructor
  · rw [← failure?_eq_none, failure?_render, PendingJoin.firstError_eq_none]
    refine forall₂_congr fun site _ => ?_
    cases h : site.enclosed with
    | false => simp [JoinSite.isComplete_iff_of_not_enclosed h, and_comm]
    | true => simp [JoinSite.isComplete_iff_of_enclosed h, and_comm]
  · intro e
    rw [← failure?_eq_some, failure?_render, PendingJoin.firstError_eq_some]
    rfl

end QueryDraft

end EntityQuery
