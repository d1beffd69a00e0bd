import EntityQuery.Json.Reader
import EntityQuery.Json.Text
import EntityQuery.Proofs.Call.Columns
import EntityQuery.Proofs.Call.Completeness
import EntityQuery.Proofs.Call.Congruence
import EntityQuery.Proofs.Call.Emptiness
import EntityQuery.Proofs.Call.Filtering
import EntityQuery.Proofs.Call.Interchange
import EntityQuery.Proofs.Call.LateBinding
import EntityQuery.Proofs.Call.NamedConditions
import EntityQuery.Proofs.Call.Projection
import EntityQuery.Proofs.Call.Refusal
import EntityQuery.Proofs.Call.Seeding
import EntityQuery.Proofs.Call.Soundness
import EntityQuery.Proofs.Draft.Incomplete
import EntityQuery.Proofs.Draft.Shape
import EntityQuery.Proofs.Equivalence
import EntityQuery.Proofs.Plan.Decoding
import EntityQuery.Proofs.Plan.Nesting
import EntityQuery.Proofs.Plan.Reloading
import EntityQuery.Proofs.Plan.Storage
import EntityQuery.Proofs.Record.Equality
import EntityQuery.Proofs.Record.Reading
import EntityQuery.Proofs.Record.Storage
import EntityQuery.Proofs.Record.Writing
import EntityQuery.Proofs.Service.LabelLookup
import EntityQuery.Proofs.Service.OptionLabel
import EntityQuery.Proofs.Service.Retrieval
import EntityQuery.Proofs.Table
