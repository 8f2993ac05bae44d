import CodeCensus.Main
import CodeCensus.Proofs.Utf8
import CodeCensus.Proofs.Path
import CodeCensus.Proofs.Sorting
import CodeCensus.Proofs.FileSystem.Resolve
import CodeCensus.Proofs.FileSystem.Writing
import CodeCensus.Proofs.Discovery.Prune
import CodeCensus.Proofs.Comment.Spans
import CodeCensus.Proofs.Ranking
import CodeCensus.Proofs.Snapshot.Sharing
import CodeCensus.Proofs.Census.Agreement
import CodeCensus.Proofs.History.Counting
import CodeCensus.Proofs.History.Interrupted
import CodeCensus.Proofs.Digits
import CodeCensus.Proofs.Health.LoneAuthor
import CodeCensus.Proofs.Health.MarkerDebt
import CodeCensus.Proofs.Report.Decoding
import CodeCensus.Proofs.Report.Remains
import CodeCensus.Proofs.Census.Reordering
import CodeCensus.Proofs.Program.Effects
import CodeCensus.Proofs.CommandLine.Arguments
import CodeCensus.Proofs.Comment.Kinds
import CodeCensus.Proofs.Margins
import CodeCensus.Proofs.Comment.Blocks
import CodeCensus.Proofs.Comment.Layout
import CodeCensus.Proofs.Marker.Grammar
import CodeCensus.Proofs.Marker.Recognition
import CodeCensus.Proofs.Marker.Returns
import CodeCensus.Proofs.Comment.Concatenation
import CodeCensus.Proofs.Ranking.Order
import CodeCensus.Proofs.Census.Languages
import CodeCensus.Proofs.Census.Files
import CodeCensus.Proofs.Census.Markers
import CodeCensus.Proofs.Health.Decline
import CodeCensus.Proofs.Health.Explanation
import CodeCensus.Proofs.Health.LargeFiles
import CodeCensus.Proofs.History.Contributors
import CodeCensus.Proofs.Calendar.Order
import CodeCensus.Proofs.History.Days
import CodeCensus.Proofs.History.Changes
import CodeCensus.Proofs.History.Churn
import CodeCensus.Proofs.Dependency.Outdated
import CodeCensus.Proofs.Dependency.Manifest
import CodeCensus.Proofs.Analysis.Merging
import CodeCensus.Proofs.Program.Neutrality
import CodeCensus.Proofs.Number.ByteSize
import CodeCensus.Proofs.Number.Grouped
import CodeCensus.Proofs.Path.Folders
