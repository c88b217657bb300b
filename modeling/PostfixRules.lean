import PostfixRules.Evaluation
import PostfixRules.Service.Handler
import PostfixRules.Settings.Load
import PostfixRules.Settings.LogLevel
import PostfixRules.Toml.Document
import PostfixRules.Proofs.Text.Words
import PostfixRules.Proofs.Text.Digits
import PostfixRules.Proofs.Number.Rounding
import PostfixRules.Proofs.Number.Double
import PostfixRules.Proofs.Number.Decimal
import PostfixRules.Proofs.Number.Shortest
import PostfixRules.Proofs.Number.Layout
import PostfixRules.Proofs.Number.Integer
import PostfixRules.Proofs.Time.Calendar
import PostfixRules.Proofs.Time.Text
import PostfixRules.Proofs.Grammar
import PostfixRules.Proofs.Reading.Stack
import PostfixRules.Proofs.Reading.Failure
import PostfixRules.Proofs.Canonical
import PostfixRules.Proofs.Number.Comparison
import PostfixRules.Proofs.Number.Quotient
import PostfixRules.Proofs.IntegerComparison
import PostfixRules.Proofs.Json.Number
import PostfixRules.Proofs.Json.Scan
import PostfixRules.Proofs.Json.Reader
import PostfixRules.Proofs.Json.Form
import PostfixRules.Proofs.Validation
import PostfixRules.Proofs.Expr.Codec
import PostfixRules.Proofs.Rule.Order
import PostfixRules.Proofs.Rule.Codec
import PostfixRules.Proofs.Store
import PostfixRules.Proofs.Service.Request
import PostfixRules.Proofs.Service.Agreement
import PostfixRules.Proofs.Execution
import PostfixRules.Proofs.Verdict
import PostfixRules.Proofs.Expr.Address
import PostfixRules.Proofs.Expr.Postorder
import PostfixRules.Proofs.Validation.FirstOffence
import PostfixRules.Proofs.Evaluation
import PostfixRules.Proofs.Combination
import PostfixRules.Proofs.Combination.Text
import PostfixRules.Proofs.Combination.Depth
import PostfixRules.Proofs.RequiredFields
import PostfixRules.Proofs.FieldReads
import PostfixRules.Proofs.Execution.Trace
import PostfixRules.Proofs.Condition
import PostfixRules.Proofs.Record
import PostfixRules.Proofs.Store.Run
import PostfixRules.Proofs.Store.Coherence
import PostfixRules.Proofs.Store.History
import PostfixRules.Proofs.Store.Session
import PostfixRules.Proofs.Store.Reachable
import PostfixRules.Proofs.Store.Listing
import PostfixRules.Proofs.Store.Linearization
import PostfixRules.Proofs.Store.Export
import PostfixRules.Proofs.Store.Combination
import PostfixRules.Proofs.Admission
import PostfixRules.Proofs.Expr.Decoding
import PostfixRules.Proofs.Service.Submission
import PostfixRules.Proofs.Service.Reencoding
import PostfixRules.Proofs.Service.Failure
import PostfixRules.Proofs.Service.Metering
import PostfixRules.Proofs.Service.Creation
import PostfixRules.Proofs.Service.Ledger
import PostfixRules.Proofs.Settings.Stack
import PostfixRules.Proofs.Settings.Layering
import PostfixRules.Proofs.TextComparison
import PostfixRules.Proofs.Token
import PostfixRules.Proofs.Reading.Representation
import PostfixRules.Proofs.Settings.Paths
import PostfixRules.Proofs.Settings.Texts
import PostfixRules.Proofs.Settings.Variables
