import HeapLatency.Bins.Histogram
import HeapLatency.Bins.Policy
import HeapLatency.Bins.Spec
import HeapLatency.Chart.Basic
import HeapLatency.Chart.Build
import HeapLatency.Chart.Data
import HeapLatency.Chart.Render
import HeapLatency.Chart.Svg
import HeapLatency.Cli.Options
import HeapLatency.Cli.Run
import HeapLatency.Command.Progress
import HeapLatency.Command.Run
import HeapLatency.Command.Summary
import HeapLatency.Config.Basic
import HeapLatency.Config.Load
import HeapLatency.Files.Fault
import HeapLatency.Files.Node
import HeapLatency.Files.Output
import HeapLatency.Files.Path
import HeapLatency.Files.Tree
import HeapLatency.Json.Print
import HeapLatency.Json.Read
import HeapLatency.Json.Scan
import HeapLatency.Json.Typed
import HeapLatency.Json.Value
import HeapLatency.Main
import HeapLatency.Markup
import HeapLatency.Notice
import HeapLatency.Number.Binary64
import HeapLatency.Number.Decimal
import HeapLatency.Number.Shortest
import HeapLatency.Number.Spelling
import HeapLatency.Report
import HeapLatency.Report.Document
import HeapLatency.RunToken
import HeapLatency.Text.Quoted
import HeapLatency.Text.Split
import HeapLatency.Text.Utf8
import HeapLatency.Toml.Number
import HeapLatency.Toml.Parse
import HeapLatency.Toml.Table
import HeapLatency.Toml.Text
import HeapLatency.Toml.Value
import HeapLatency.Trace.Event
import HeapLatency.Trace.Parse
import HeapLatency.Trace.Row
import HeapLatency.Trace.Series
import HeapLatency.Proofs.Bins.Bucketing
import HeapLatency.Proofs.Bins.Counting
import HeapLatency.Proofs.Bins.Densities
import HeapLatency.Proofs.Bins.Edges
import HeapLatency.Proofs.Bins.Means
import HeapLatency.Proofs.Bins.NonFinite
import HeapLatency.Proofs.Bins.Parameters
import HeapLatency.Proofs.Bins.Placement
import HeapLatency.Proofs.Bins.Policies
import HeapLatency.Proofs.Bins.Ranges
import HeapLatency.Proofs.Bins.Reordered
import HeapLatency.Proofs.Bins.RoundedUp
import HeapLatency.Proofs.Bins.Scaled
import HeapLatency.Proofs.Bins.Sound
import HeapLatency.Proofs.Bins.Spanned
import HeapLatency.Proofs.Bins.Spans
import HeapLatency.Proofs.Bins.WholeRanges
import HeapLatency.Proofs.Chart.Buildable
import HeapLatency.Proofs.Chart.Built
import HeapLatency.Proofs.Chart.Comparisons
import HeapLatency.Proofs.Chart.Counts
import HeapLatency.Proofs.Chart.Densities
import HeapLatency.Proofs.Chart.Drawable
import HeapLatency.Proofs.Chart.Drawing
import HeapLatency.Proofs.Chart.Lookups
import HeapLatency.Proofs.Chart.Names
import HeapLatency.Proofs.Chart.Pictures
import HeapLatency.Proofs.Chart.TickCounts
import HeapLatency.Proofs.Chart.Ticks
import HeapLatency.Proofs.Chart.Verdicts
import HeapLatency.Proofs.Chart.Words
import HeapLatency.Proofs.Cli.ExitStatus
import HeapLatency.Proofs.Cli.Output
import HeapLatency.Proofs.Command.Accounting
import HeapLatency.Proofs.Command.ChartFiles
import HeapLatency.Proofs.Command.ChartPlaces
import HeapLatency.Proofs.Command.Endings
import HeapLatency.Proofs.Command.Fatal
import HeapLatency.Proofs.Command.Inputs
import HeapLatency.Proofs.Command.Rendering
import HeapLatency.Proofs.Command.Repeated
import HeapLatency.Proofs.Command.Runs
import HeapLatency.Proofs.Command.Steps
import HeapLatency.Proofs.Config
import HeapLatency.Proofs.Conservation
import HeapLatency.Proofs.Files.Additions
import HeapLatency.Proofs.Files.Changes
import HeapLatency.Proofs.Files.Locations
import HeapLatency.Proofs.Files.Missing
import HeapLatency.Proofs.Files.Obstacles
import HeapLatency.Proofs.Files.Parents
import HeapLatency.Proofs.Files.Paths
import HeapLatency.Proofs.Files.Rewriting
import HeapLatency.Proofs.Json.Layout
import HeapLatency.Proofs.Json.Numbers
import HeapLatency.Proofs.Json.Readers
import HeapLatency.Proofs.Json.Texts
import HeapLatency.Proofs.Markup.Escaping
import HeapLatency.Proofs.Markup.Numbers
import HeapLatency.Proofs.Markup.Reading
import HeapLatency.Proofs.Markup.Rendered
import HeapLatency.Proofs.Number.Alike
import HeapLatency.Proofs.Number.Arithmetic
import HeapLatency.Proofs.Number.Near
import HeapLatency.Proofs.Number.Nearest
import HeapLatency.Proofs.Number.Numerals
import HeapLatency.Proofs.Number.Order
import HeapLatency.Proofs.Number.Reread
import HeapLatency.Proofs.Number.Rounding
import HeapLatency.Proofs.Number.Shortest
import HeapLatency.Proofs.Number.Value
import HeapLatency.Proofs.Number.Whole
import HeapLatency.Proofs.Report.Cutoffs
import HeapLatency.Proofs.Report.Documents
import HeapLatency.Proofs.Report.Percentages
import HeapLatency.Proofs.Report.ReadBack
import HeapLatency.Proofs.Results
import HeapLatency.Proofs.RunTokens
import HeapLatency.Proofs.Text.Encoding
import HeapLatency.Proofs.Text.Fields
import HeapLatency.Proofs.Text.Layout
import HeapLatency.Proofs.Text.Lines
import HeapLatency.Proofs.Text.Utf8
import HeapLatency.Proofs.Trace.Classified
import HeapLatency.Proofs.Trace.Cycles
import HeapLatency.Proofs.Trace.Layout
import HeapLatency.Proofs.Trace.Outcome
import HeapLatency.Proofs.Trace.Partition
import HeapLatency.Proofs.Trace.Rows
import HeapLatency.Proofs.Trace.Spikes
