import RecordQuery.Catalog.Basic
import RecordQuery.Catalog.Reader
import RecordQuery.Command.Arguments
import RecordQuery.Command.Environment
import RecordQuery.Command.Error
import RecordQuery.Command.Invocation
import RecordQuery.Command.Manual
import RecordQuery.Command.Rules
import RecordQuery.Command.Run
import RecordQuery.Dataset.Basic
import RecordQuery.Dataset.Reader
import RecordQuery.Double.Basic
import RecordQuery.Double.Decimal
import RecordQuery.Double.Magnitude
import RecordQuery.Double.Numeral
import RecordQuery.Double.Text
import RecordQuery.Files.Basic
import RecordQuery.Files.Path
import RecordQuery.Files.Task
import RecordQuery.Json.Basic
import RecordQuery.Json.Fault
import RecordQuery.Json.Printer
import RecordQuery.Json.Reader
import RecordQuery.Json.Typed
import RecordQuery.Keyed
import RecordQuery.Literal
import RecordQuery.Main
import RecordQuery.Page
import RecordQuery.Predicate
import RecordQuery.Proofs.AllPages
import RecordQuery.Proofs.Catalog
import RecordQuery.Proofs.Catalog.Agreement
import RecordQuery.Proofs.Catalog.AsWritten
import RecordQuery.Proofs.Catalog.Suggestion
import RecordQuery.Proofs.Coercion
import RecordQuery.Proofs.Dataset.Result
import RecordQuery.Proofs.Dataset.Written
import RecordQuery.Proofs.Dependence
import RecordQuery.Proofs.Double.Fewest
import RecordQuery.Proofs.Double.LeadingNumeral
import RecordQuery.Proofs.Double.Nearest
import RecordQuery.Proofs.Double.Numeral
import RecordQuery.Proofs.Double.Plain
import RecordQuery.Proofs.Double.ReadBack
import RecordQuery.Proofs.Double.Rounding
import RecordQuery.Proofs.Double.Shortest
import RecordQuery.Proofs.Double.Spelling
import RecordQuery.Proofs.Double.Text
import RecordQuery.Proofs.Except
import RecordQuery.Proofs.Files.Absent
import RecordQuery.Proofs.Files.CutOff
import RecordQuery.Proofs.Files.Failure
import RecordQuery.Proofs.Files.Held
import RecordQuery.Proofs.Files.Path
import RecordQuery.Proofs.Files.Place
import RecordQuery.Proofs.Files.Smooth
import RecordQuery.Proofs.Json.Control
import RecordQuery.Proofs.Json.Derived
import RecordQuery.Proofs.Json.Double
import RecordQuery.Proofs.Json.Entries
import RecordQuery.Proofs.Json.Number
import RecordQuery.Proofs.Json.Result
import RecordQuery.Proofs.Json.Scale
import RecordQuery.Proofs.Json.Skipped
import RecordQuery.Proofs.Json.Text
import RecordQuery.Proofs.Json.Unambiguous
import RecordQuery.Proofs.Json.Value
import RecordQuery.Proofs.Keyed
import RecordQuery.Proofs.Meaning
import RecordQuery.Proofs.Operators
import RecordQuery.Proofs.Page
import RecordQuery.Proofs.PageContents
import RecordQuery.Proofs.Query.Dual
import RecordQuery.Proofs.Query.Expression
import RecordQuery.Proofs.Query.FirstFault
import RecordQuery.Proofs.Query.Grammar
import RecordQuery.Proofs.Query.Strict
import RecordQuery.Proofs.Report.Colors
import RecordQuery.Proofs.Report.Explanation
import RecordQuery.Proofs.Report.Records
import RecordQuery.Proofs.Request
import RecordQuery.Proofs.Sample
import RecordQuery.Proofs.Sample.Calendar
import RecordQuery.Proofs.Sample.Dates
import RecordQuery.Proofs.Settings.Assignment
import RecordQuery.Proofs.Settings.Commands
import RecordQuery.Proofs.Settings.Text
import RecordQuery.Proofs.Store.Cell
import RecordQuery.Proofs.Store.Interrupted
import RecordQuery.Proofs.Store.RoundTrip
import RecordQuery.Proofs.Store.SaveLoad
import RecordQuery.Proofs.Store.Untouched
import RecordQuery.Proofs.Text.ByteOrder
import RecordQuery.Proofs.Text.EditDistance
import RecordQuery.Proofs.Toml.Document
import RecordQuery.Proofs.Toml.Quoted
import RecordQuery.Proofs.Walk
import RecordQuery.Proofs.WholeNumbers
import RecordQuery.Query.Basic
import RecordQuery.Query.Error
import RecordQuery.Query.Reader
import RecordQuery.Report.Explanation
import RecordQuery.Report.Records
import RecordQuery.Report.Seeding
import RecordQuery.Report.Settings
import RecordQuery.Request
import RecordQuery.Sample.Calendar
import RecordQuery.Sample.Dataset
import RecordQuery.Sample.Random
import RecordQuery.Schema
import RecordQuery.Settings.Basic
import RecordQuery.Settings.File
import RecordQuery.Settings.Text
import RecordQuery.Store
import RecordQuery.Text.Blank
import RecordQuery.Text.Columns
import RecordQuery.Text.EditDistance
import RecordQuery.Text.Hidden
import RecordQuery.Text.Natural
import RecordQuery.Text.Quoted
import RecordQuery.Toml.Basic
import RecordQuery.Toml.Document
import RecordQuery.Toml.Quoted
import RecordQuery.Toml.Reader
