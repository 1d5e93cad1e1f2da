import MacroRelay.Duration
import MacroRelay.Expansion.Key
import MacroRelay.Expansion.Stream
import MacroRelay.Report.Bag
import MacroRelay.Settings.Connection
import MacroRelay.Source.FileSet
import MacroRelay.Source.Origin
import MacroRelay.Status
import MacroRelay.Suite
import MacroRelay.Timer
import MacroRelay.Trace.Tracer
import MacroRelay.Tree.Parse
import MacroRelay.Version
import MacroRelay.Wire.Call
import MacroRelay.Wire.Gen1
import MacroRelay.Wire.Gen2
import MacroRelay.Wire.Generation
import MacroRelay.Toml.Document
import MacroRelay.Catalogue
import MacroRelay.Settings.File
import MacroRelay.Trial.Supervision
import MacroRelay.Trial.Workbench
import MacroRelay.Session.Adapter
import MacroRelay.CommandLine.Flag
import MacroRelay.Text.Distance
import MacroRelay.Relay.Report
import MacroRelay.Program
import MacroRelay.Trial.Programs
import MacroRelay.Main
import MacroRelay.Proofs.Wire.Pack
import MacroRelay.Proofs.Wire.RoundTrip
import MacroRelay.Proofs.Wire.Messages
import MacroRelay.Proofs.Expansion.Key
import MacroRelay.Proofs.Wire.Sizes
import MacroRelay.Proofs.Path
import MacroRelay.Proofs.Source.FileTree
import MacroRelay.Proofs.Cache.Disk
import MacroRelay.Proofs.Session.Stores
import MacroRelay.Proofs.Session.Fleet
import MacroRelay.Proofs.Session.Edition
import MacroRelay.Proofs.Client.Calls
import MacroRelay.Proofs.Session.Errand
import MacroRelay.Proofs.Supervisor
import MacroRelay.Proofs.Session.Wires
import MacroRelay.Proofs.Session.Traffic
import MacroRelay.Proofs.Session.Flights
import MacroRelay.Proofs.Wire.Values
import MacroRelay.Proofs.Wire.Packets
import MacroRelay.Proofs.Client.Hub
import MacroRelay.Proofs.Client.Routing
import MacroRelay.Proofs.Client.Teardown
import MacroRelay.Proofs.Client.Walks
import MacroRelay.Proofs.Token.Lexing
import MacroRelay.Proofs.Tree.Groups
import MacroRelay.Proofs.Tree.Items
import MacroRelay.Proofs.Expansion.Params
import MacroRelay.Proofs.Session.Generations
import MacroRelay.Proofs.Supervisor.Restarts
import MacroRelay.Proofs.Token.Relexing
import MacroRelay.Proofs.Tree.Relabelling
import MacroRelay.Proofs.Tree.Removal
import MacroRelay.Proofs.Expansion.Streams
import MacroRelay.Proofs.Token.Characters
import MacroRelay.Proofs.Source.Places
import MacroRelay.Proofs.Cache.Footprint
import MacroRelay.Proofs.Session.Plugins
import MacroRelay.Proofs.Session.Answers
import MacroRelay.Proofs.Relay.Plan
import MacroRelay.Proofs.Relay.Batch
import MacroRelay.Proofs.Tree.Calls
import MacroRelay.Proofs.Session.Ways
import MacroRelay.Proofs.Session.Degraded
import MacroRelay.Proofs.Cache.Recency
import MacroRelay.Proofs.Session.Recall
import MacroRelay.Proofs.Wire.Prefixes
import MacroRelay.Proofs.Source.Directories
import MacroRelay.Proofs.Cache.Entries
import MacroRelay.Proofs.Session.Repair
import MacroRelay.Proofs.Token.Grammar
import MacroRelay.Proofs.Tree.Nodes
import MacroRelay.Proofs.Tree.CallSites
import MacroRelay.Proofs.Source.Mappings
import MacroRelay.Proofs.Expansion.Reported
import MacroRelay.Proofs.Session.Findings
import MacroRelay.Proofs.Suite
import MacroRelay.Proofs.Catalogue
import MacroRelay.Proofs.Session.Posts
import MacroRelay.Proofs.Expansion.Received
import MacroRelay.Proofs.Catalogue.WireForm
import MacroRelay.Proofs.Catalogue.Suites
import MacroRelay.Proofs.Relay.Origins
import MacroRelay.Proofs.Relay.Attributes
import MacroRelay.Proofs.Relay.Derives
import MacroRelay.Proofs.Relay.Polls
import MacroRelay.Proofs.Path.Cleaning
import MacroRelay.Proofs.Source.FileSet
import MacroRelay.Proofs.Source.Lines
import MacroRelay.Proofs.Source.Loading
import MacroRelay.Proofs.Report.Bag
import MacroRelay.Proofs.Supervisor.Delays
import MacroRelay.Proofs.Trace.Sinks
import MacroRelay.Proofs.Trace.Recording
import MacroRelay.Proofs.Trace.Spans
import MacroRelay.Proofs.Status
import MacroRelay.Proofs.Session.Closed
import MacroRelay.Proofs.Text.Lines
import MacroRelay.Proofs.Trace.Lines
import MacroRelay.Proofs.Relay.LineOrigins
import MacroRelay.Proofs.Settings.Search
import MacroRelay.Proofs.Token.Words
import MacroRelay.Proofs.Tree.DeriveLists
import MacroRelay.Proofs.Tree.Nesting
