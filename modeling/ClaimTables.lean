import ClaimTables.Main
import ClaimTables.Exchange.Script
import ClaimTables.Proofs.Client.AppliedOnce
import ClaimTables.Proofs.Binary64.Nearest
import ClaimTables.Proofs.Binary64.Shortest
import ClaimTables.Proofs.Binary64.RoundTrip
import ClaimTables.Proofs.Calendar.RoundTrip
import ClaimTables.Proofs.Claim.RoundTrip
import ClaimTables.Proofs.Service.Export
import ClaimTables.Proofs.Schema.Valid
import ClaimTables.Proofs.Row.Checked
import ClaimTables.Proofs.Row.Created
import ClaimTables.Proofs.Service.Algebra
import ClaimTables.Proofs.Service.Syntax
import ClaimTables.Proofs.Sparql.Reading
import ClaimTables.Proofs.Sparql.Evaluation
import ClaimTables.Proofs.Query.Joins
import ClaimTables.Proofs.Query.Meaning
import ClaimTables.Proofs.Query.Translation
import ClaimTables.Proofs.Tables.Counting
import ClaimTables.Proofs.Service.Store
import ClaimTables.Proofs.Client.Storing
import ClaimTables.Proofs.Row.Kept
import ClaimTables.Proofs.Tables.Runs
import ClaimTables.Proofs.Tables.Scoping
import ClaimTables.Proofs.Tables.Twins
import ClaimTables.Proofs.Tables.Sharing
import ClaimTables.Proofs.Client.Sessions
import ClaimTables.Proofs.Tables.Outcome
import ClaimTables.Proofs.Tables.Batches
import ClaimTables.Proofs.Tables.Again
import ClaimTables.Proofs.Tables.Lookups
import ClaimTables.Proofs.Tables.Growth
import ClaimTables.Proofs.Tables.Recognition
import ClaimTables.Proofs.Schema.Views
import ClaimTables.Proofs.Schema.Rejection
import ClaimTables.Proofs.Tables.Holders
import ClaimTables.Proofs.Tables.Convergence
import ClaimTables.Proofs.Tables.BatchReport
import ClaimTables.Proofs.Tables.Refusals
import ClaimTables.Proofs.Tables.StoredOnce
import ClaimTables.Proofs.Tables.FirstRow
import ClaimTables.Proofs.Sparql.Matching
import ClaimTables.Proofs.Tables.NaturalKeys
import ClaimTables.Proofs.Tables.Retrying
import ClaimTables.Proofs.Claim.Canonical
import ClaimTables.Proofs.Calendar.Spelling
import ClaimTables.Proofs.Calendar.Width
import ClaimTables.Proofs.Service.Denotation
import ClaimTables.Proofs.Query.Comparing
import ClaimTables.Proofs.Row.Exact
import ClaimTables.Proofs.Tables.WritingBack
import ClaimTables.Proofs.Command.Lists
import ClaimTables.Proofs.Query.Supported
import ClaimTables.Proofs.Tables.Accepting
import ClaimTables.Proofs.Query.Ordering
import ClaimTables.Proofs.Tables.SharedPattern
import ClaimTables.Proofs.Client.Calls
import ClaimTables.Proofs.Client.Rejection
import ClaimTables.Proofs.Sparql.Literals
import ClaimTables.Proofs.Command.Assignments
import ClaimTables.Proofs.Tables.Finality
