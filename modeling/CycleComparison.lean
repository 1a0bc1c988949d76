import CycleComparison.Command.Run
import CycleComparison.Main
import CycleComparison.Measurement.Json
import CycleComparison.Samples.Builder
import CycleComparison.Samples.Named
import CycleComparison.Proofs.Analysis.Outcome
import CycleComparison.Proofs.Measurement.Presentation
import CycleComparison.Proofs.Text.Trim
import CycleComparison.Proofs.Text.Utf8
import CycleComparison.Proofs.Delimited.Scan
import CycleComparison.Proofs.Delimited.RoundTrip
import CycleComparison.Proofs.Binary64.Grid
import CycleComparison.Proofs.Decimal.Positional
import CycleComparison.Proofs.Measurement.RoundTrip
import CycleComparison.Proofs.Statistics.ComparisonTable
import CycleComparison.Proofs.Statistics.Grouping
import CycleComparison.Proofs.Analysis.Agreement
import CycleComparison.Proofs.Binary64.Operations
import CycleComparison.Proofs.Statistics.RunningMean
import CycleComparison.Proofs.Analysis.Finiteness
import CycleComparison.Proofs.Json.Token
import CycleComparison.Proofs.Json.RoundTrip
import CycleComparison.Proofs.Json.Number
import CycleComparison.Proofs.Json.Fields
import CycleComparison.Proofs.Json.Approximation
import CycleComparison.Proofs.Json.Exact
import CycleComparison.Proofs.Json.Reread
import CycleComparison.Proofs.Measurement.ReadBack
import CycleComparison.Proofs.Report.ReadBack
import CycleComparison.Proofs.Statistics.LongForm
import CycleComparison.Proofs.Analysis.Accounting
import CycleComparison.Proofs.Report.Faithful
import CycleComparison.Proofs.Analysis.Tabulation
import CycleComparison.Proofs.Statistics.BareRows
import CycleComparison.Proofs.Files.Writing
import CycleComparison.Proofs.Command.Atomicity
import CycleComparison.Proofs.Decimal.Literal
import CycleComparison.Proofs.Binary64.Nearest
import CycleComparison.Proofs.Measurement.Id
import CycleComparison.Proofs.Benchmark.Shape
import CycleComparison.Proofs.Report.Pairing
import CycleComparison.Proofs.Statistics.MeanRange
import CycleComparison.Proofs.Delimited.Loading
import CycleComparison.Proofs.Delimited.Position
import CycleComparison.Proofs.Text.Decoding
import CycleComparison.Proofs.Text.ByteOrder
import CycleComparison.Proofs.Delimited.Reading
import CycleComparison.Proofs.Measurement.Trimming
import CycleComparison.Proofs.Statistics.ArithmeticMean
import CycleComparison.Proofs.Analysis.Exactness
import CycleComparison.Proofs.Measurement.MissingColumns
import CycleComparison.Proofs.Measurement.Layout
import CycleComparison.Proofs.Statistics.LastWrite
import CycleComparison.Proofs.Statistics.ReadBack
import CycleComparison.Proofs.Analysis.Log
