import EntityQuery.Plan
import EntityQuery.Proofs.Json.Fields

/-!
# Plans by their fields

What data is read as a plan, or as one of the structures in it, is said field by field.  Filters and
joins nest, and there the reader of the whole is that of its parts, one level less deep.
-/

namespace EntityQuery

open Json

namespace Condition

def fieldNames : List String := ["attribute", "operator", "values"]

theorem ofJson?_eq_some_iff {data : Json} {c : Condition} : ofJson? data = some c ↔
    (data.field? fieldNames "attribute").bind string? = some c.attr ∧
      (data.field? fieldNames "operator").bind Operator.ofJson? = some c.operator ∧
      (data.field? fieldNames "values").bind (listOf? Value.ofJson?) = some c.values := by
  constructor
  · intro h
    obtain ⟨fields, hfields, h⟩ := Option.bind_eq_some_iff.1 h
    split at h
    · simp only [Option.bind_eq_bind, Option.bind_eq_some_iff, Option.pure_def, Option.some.injEq]
        at h
      obtain ⟨_, hattr, _, hoperator, _, hvalues, rfl⟩ := h
      exact ⟨bind_field?_eq hfields rfl hattr, bind_field?_eq hfields rfl hoperator,
        bind_field?_eq hfields rfl hvalues⟩
    · cases h
  · simp only [Option.bind_eq_some_iff]
    rintro ⟨⟨_, hattr, readAttr⟩, ⟨_, hoperator, readOperator⟩, _, hvalues, readValues⟩
    have hfields := fields?_of_field? (by decide) hattr
    simp only [fieldNames, List.map_cons, List.map_nil] at *
    simp [ofJson?, hfields, hattr, hoperator, hvalues, readAttr, readOperator, readValues]

end Condition

namespace Filter

def fieldNames : List String := ["combinator", "conditions", "subfilters"]

theorem ofJsonWithin?_eq_some_iff {depth : Nat} {data : Json} {f : Filter} :
    ofJsonWithin? (depth + 1) data = some f ↔
      (data.field? fieldNames "combinator").bind Combinator.ofJson? = some f.combinator ∧
        (data.field? fieldNames "conditions").bind (listOf? Condition.ofJson?) =
          some f.conditions ∧
        (data.field? fieldNames "subfilters").bind (listOf? (ofJsonWithin? depth)) =
          some f.subfilters := by
  constructor
  · intro h
    obtain ⟨fields, hfields, h⟩ := Option.bind_eq_some_iff.1 h
    split at h
    · simp only [Option.bind_eq_bind, Option.bind_eq_some_iff, Option.pure_def, Option.some.injEq]
        at h
      obtain ⟨_, hcombinator, _, hconditions, _, hsubfilters, rfl⟩ := h
      exact ⟨bind_field?_eq hfields rfl hcombinator, bind_field?_eq hfields rfl hconditions,
        bind_field?_eq hfields rfl hsubfilters⟩
    · cases h
  · simp only [Option.bind_eq_some_iff]
    rintro ⟨⟨_, hcombinator, readCombinator⟩, ⟨_, hconditions, readConditions⟩, _, hsubfilters,
      readSubfilters⟩
    have hfields := fields?_of_field? (by decide) hcombinator
    simp only [fieldNames, List.map_cons, List.map_nil] at *
    cases f
    simp [ofJsonWithin?, hfields, hcombinator, hconditions, hsubfilters, readCombinator,
      readConditions, readSubfilters]

end Filter

namespace Join

theorem ofJsonWithin?_eq_some_iff {depth : Nat} {data : Json} {j : Join} :
    ofJsonWithin? (depth + 1) data = some j ↔
      (data.field? fieldNames "local_entity").bind string? = some j.localEntity ∧
        (data.field? fieldNames "local_attribute").bind string? = some j.localAttribute ∧
        (data.field? fieldNames "remote_entity").bind string? = some j.remoteEntity ∧
        (data.field? fieldNames "remote_attribute").bind string? = some j.remoteAttribute ∧
        optional? string? (data.field? fieldNames "alias") = some j.aliasName ∧
        (data.field? fieldNames "kind").bind JoinKind.ofJson? = some j.kind ∧
        (data.field? fieldNames "columns").bind Projection.ofJson? = some j.columns ∧
        (data.field? fieldNames "filter").bind Filter.ofJson? = some j.filter ∧
        (data.field? fieldNames "nested_joins").bind (listOf? (ofJsonWithin? depth)) =
          some j.nested := by
  constructor
  · intro h
    obtain ⟨fields, hfields, h⟩ := Option.bind_eq_some_iff.1 h
    split at h
    · simp only [Option.bind_eq_bind, Option.bind_eq_some_iff, Option.pure_def, Option.some.injEq]
        at h
      obtain ⟨_, hlocal, _, hlocalKey, _, hremote, _, hremoteKey, _, halias, _, hkind, _, hcolumns,
        _, hfilter, _, hnested, rfl⟩ := h
      exact ⟨bind_field?_eq hfields rfl hlocal, bind_field?_eq hfields rfl hlocalKey,
        bind_field?_eq hfields rfl hremote, bind_field?_eq hfields rfl hremoteKey,
        (congrArg _ (field?_eq hfields rfl)).trans halias, bind_field?_eq hfields rfl hkind,
        bind_field?_eq hfields rfl hcolumns, bind_field?_eq hfields rfl hfilter,
        bind_field?_eq hfields rfl hnested⟩
    · cases h
  · simp only [Option.bind_eq_some_iff]
    rintro ⟨⟨_, hlocal, readLocal⟩, ⟨_, hlocalKey, readLocalKey⟩, ⟨_, hremote, readRemote⟩,
      ⟨_, hremoteKey, readRemoteKey⟩, readAlias, ⟨_, hkind, readKind⟩,
      ⟨_, hcolumns, readColumns⟩, ⟨_, hfilter, readFilter⟩, _, hnested, readNested⟩
    have hfields := fields?_of_field? (by decide) hlocal
    simp only [fieldNames, List.map_cons, List.map_nil] at *
    cases j
    simp [ofJsonWithin?, fieldNames, hfields, hlocal, hlocalKey, hremote, hremoteKey, hkind,
      hcolumns, hfilter, hnested, readLocal, readLocalKey, readRemote, readRemoteKey, readAlias,
      readKind, readColumns, readFilter, readNested]

end Join

namespace SortKey

def fieldNames : List String := ["attribute", "direction"]

theorem ofJson?_eq_some_iff {data : Json} {key : SortKey} : ofJson? data = some key ↔
    (data.field? fieldNames "attribute").bind string? = some key.attr ∧
      (data.field? fieldNames "direction").bind Direction.ofJson? = some key.direction := by
  constructor
  · intro h
    obtain ⟨fields, hfields, h⟩ := Option.bind_eq_some_iff.1 h
    split at h
    · simp only [Option.bind_eq_bind, Option.bind_eq_some_iff, Option.pure_def, Option.some.injEq]
        at h
      obtain ⟨_, hattr, _, hdirection, rfl⟩ := h
      exact ⟨bind_field?_eq hfields rfl hattr, bind_field?_eq hfields rfl hdirection⟩
    · cases h
  · simp only [Option.bind_eq_some_iff]
    rintro ⟨⟨_, hattr, readAttr⟩, _, hdirection, readDirection⟩
    have hfields := fields?_of_field? (by decide) hattr
    simp only [fieldNames, List.map_cons, List.map_nil] at *
    simp [ofJson?, hfields, hattr, hdirection, readAttr, readDirection]

end SortKey

namespace Paging

def fieldNames : List String :=
  ["page_size", "page_number", "request_total_count", "continuation_token"]

theorem ofJson?_eq_some_iff {data : Json} {p : Paging} : ofJson? data = some p ↔
    (data.field? fieldNames "page_size").bind uint32? = some p.pageSize ∧
      (data.field? fieldNames "page_number").bind uint32? = some p.pageNumber ∧
      (data.field? fieldNames "request_total_count").bind bool? = some p.requestTotalCount ∧
      optional? string? (data.field? fieldNames "continuation_token") =
        some p.continuationToken := by
  constructor
  · intro h
    obtain ⟨fields, hfields, h⟩ := Option.bind_eq_some_iff.1 h
    split at h
    · simp only [Option.bind_eq_bind, Option.bind_eq_some_iff, Option.pure_def, Option.some.injEq]
        at h
      obtain ⟨_, hsize, _, hnumber, _, hcount, _, htoken, rfl⟩ := h
      exact ⟨bind_field?_eq hfields rfl hsize, bind_field?_eq hfields rfl hnumber,
        bind_field?_eq hfields rfl hcount, (congrArg _ (field?_eq hfields rfl)).trans htoken⟩
    · cases h
  · simp only [Option.bind_eq_some_iff]
    rintro ⟨⟨_, hsize, readSize⟩, ⟨_, hnumber, readNumber⟩, ⟨_, hcount, readCount⟩, readToken⟩
    have hfields := fields?_of_field? (by decide) hsize
    simp only [fieldNames, List.map_cons, List.map_nil] at *
    simp [ofJson?, hfields, hsize, hnumber, hcount, readSize, readNumber, readCount, readToken]

end Paging

namespace Plan

def fieldNames : List String :=
  ["entity", "columns", "filter", "joins", "sort", "paging", "consistency"]

theorem ofJson?_eq_some_iff {data : Json} {plan : Plan} : ofJson? data = some plan ↔
    (data.field? fieldNames "entity").bind string? = some plan.entity ∧
      (data.field? fieldNames "columns").bind Projection.ofJson? = some plan.columns ∧
      (data.field? fieldNames "filter").bind Filter.ofJson? = some plan.filter ∧
      (data.field? fieldNames "joins").bind (listOf? Join.ofJson?) = some plan.joins ∧
      (data.field? fieldNames "sort").bind (listOf? SortKey.ofJson?) = some plan.sort ∧
      optional? Paging.ofJson? (data.field? fieldNames "paging") = some plan.paging ∧
      (data.field? fieldNames "consistency").bind Consistency.ofJson? =
        some plan.consistency := by
  constructor
  · intro h
    obtain ⟨fields, hfields, h⟩ := Option.bind_eq_some_iff.1 h
    split at h
    · simp only [Option.bind_eq_bind, Option.bind_eq_some_iff, Option.pure_def, Option.some.injEq]
        at h
      obtain ⟨_, hentity, _, hcolumns, _, hfilter, _, hjoins, _, hsort, _, hpaging, _,
        hconsistency, rfl⟩ := h
      exact ⟨bind_field?_eq hfields rfl hentity, bind_field?_eq hfields rfl hcolumns,
        bind_field?_eq hfields rfl hfilter, bind_field?_eq hfields rfl hjoins,
        bind_field?_eq hfields rfl hsort, (congrArg _ (field?_eq hfields rfl)).trans hpaging,
        bind_field?_eq hfields rfl hconsistency⟩
    · cases h
  · simp only [Option.bind_eq_some_iff]
    rintro ⟨⟨_, hentity, readEntity⟩, ⟨_, hcolumns, readColumns⟩, ⟨_, hfilter, readFilter⟩,
      ⟨_, hjoins, readJoins⟩, ⟨_, hsort, readSort⟩, readPaging, _, hconsistency, readConsistency⟩
    have hfields := fields?_of_field? (by decide) hentity
    simp only [fieldNames, List.map_cons, List.map_nil] at *
    simp [ofJson?, hfields, hentity, hcolumns, hfilter, hjoins, hsort, hconsistency, readEntity,
      readColumns, readFilter, readJoins, readSort, readPaging, readConsistency]

end Plan

end EntityQuery
