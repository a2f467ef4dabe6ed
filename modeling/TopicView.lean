import TopicView.Client
import TopicView.Decimal.Double
import TopicView.Decimal.Layout
import TopicView.Decimal.Shortest
import TopicView.Decoder
import TopicView.Failure
import TopicView.Header
import TopicView.Instant
import TopicView.Invocation.Argument
import TopicView.Invocation.Command
import TopicView.Invocation.Help
import TopicView.Json.Fault
import TopicView.Json.Format
import TopicView.Json.Reader
import TopicView.Json.Token
import TopicView.Json.Value
import TopicView.Json.Writer
import TopicView.Keyed
import TopicView.Listing.Ranges
import TopicView.Listing.Records
import TopicView.Listing.Table
import TopicView.Listing.Transcript
import TopicView.Log.Basic
import TopicView.Log.Cursor
import TopicView.Log.Partition
import TopicView.Main
import TopicView.Program
import TopicView.Proofs.Capacity
import TopicView.Proofs.Header
import TopicView.Proofs.Json.Completeness
import TopicView.Proofs.Json.Grammar
import TopicView.Proofs.Json.RoundTrip
import TopicView.Proofs.Json.Soundness
import TopicView.Proofs.Keyed
import TopicView.Proofs.Listing.Lines
import TopicView.Proofs.Log.Archive
import TopicView.Proofs.Log.Ascent
import TopicView.Proofs.Log.Change
import TopicView.Proofs.Log.Content
import TopicView.Proofs.Log.Cursor
import TopicView.Proofs.Log.Load
import TopicView.Proofs.Log.Operation
import TopicView.Proofs.Log.Overflow
import TopicView.Proofs.Log.Partition
import TopicView.Proofs.Log.Reachable
import TopicView.Proofs.Log.Segment
import TopicView.Proofs.Log.Yield
import TopicView.Proofs.Read.Act
import TopicView.Proofs.Read.Advance
import TopicView.Proofs.Read.Alone
import TopicView.Proofs.Read.Attempt
import TopicView.Proofs.Read.Blind
import TopicView.Proofs.Read.Caller
import TopicView.Proofs.Read.Channel
import TopicView.Proofs.Read.Contest
import TopicView.Proofs.Read.Course
import TopicView.Proofs.Read.Cover
import TopicView.Proofs.Read.Delivery
import TopicView.Proofs.Read.Drain
import TopicView.Proofs.Read.Event
import TopicView.Proofs.Read.Exchange
import TopicView.Proofs.Read.Extent
import TopicView.Proofs.Read.Fault
import TopicView.Proofs.Read.Follow
import TopicView.Proofs.Read.Halt
import TopicView.Proofs.Read.Larger
import TopicView.Proofs.Read.Last
import TopicView.Proofs.Read.Limit
import TopicView.Proofs.Read.Newest
import TopicView.Proofs.Read.Overtake
import TopicView.Proofs.Read.Plan
import TopicView.Proofs.Read.Progress
import TopicView.Proofs.Read.Range
import TopicView.Proofs.Read.Relay
import TopicView.Proofs.Read.Report
import TopicView.Proofs.Read.Safe
import TopicView.Proofs.Read.Split
import TopicView.Proofs.Read.Start
import TopicView.Proofs.Read.Stop
import TopicView.Proofs.Read.Tail
import TopicView.Proofs.Read.Window
import TopicView.Proofs.Text.Decoding
import TopicView.Read.Channel
import TopicView.Read.Error
import TopicView.Read.Filter
import TopicView.Read.Handle
import TopicView.Read.Limit
import TopicView.Read.Mode
import TopicView.Read.Offsets
import TopicView.Read.Plan
import TopicView.Read.Request
import TopicView.Read.Run
import TopicView.Read.Summary
import TopicView.Read.Worker
import TopicView.Record
import TopicView.Result
import TopicView.Script
import TopicView.Settings
import TopicView.Settings.File
import TopicView.Snapshot
import TopicView.Text.Blank
import TopicView.Text.Combining
import TopicView.Text.Excerpt
import TopicView.Text.Hidden
import TopicView.Text.Ligature
import TopicView.Text.Numeral
import TopicView.Text.Picture
import TopicView.Text.Plain
import TopicView.Text.Quoted
import TopicView.Text.Ranges
import TopicView.Text.Transparent
import TopicView.Text.Utf8
import TopicView.Text.Width
import TopicView.Toml.Reader
import TopicView.Toml.Value
import TopicView.Topic
