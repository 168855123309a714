import Enclosure.Binary64.Basic
import Enclosure.Binary64.Decimal
import Enclosure.Binary64.Shortest
import Enclosure.Budget
import Enclosure.Budget.Polling
import Enclosure.Channel
import Enclosure.Client.Connection
import Enclosure.Client.Connections
import Enclosure.Client.Fault
import Enclosure.Client.Journal
import Enclosure.Client.Link
import Enclosure.Client.Peer
import Enclosure.Client.Scripted
import Enclosure.CommandLine.Binding
import Enclosure.CommandLine.Invocation
import Enclosure.CommandLine.Options
import Enclosure.CommandLine.Plan
import Enclosure.CommandLine.Run
import Enclosure.Configuration.Basic
import Enclosure.Configuration.Example
import Enclosure.Configuration.File
import Enclosure.Configuration.Lookup
import Enclosure.Configuration.Variables
import Enclosure.ControlGroup.Basic
import Enclosure.ControlGroup.Content
import Enclosure.ControlGroup.Hierarchy
import Enclosure.ControlGroup.Leaf
import Enclosure.ControlGroup.Leaves
import Enclosure.ControlGroup.Root
import Enclosure.ControlGroup.Setup
import Enclosure.Descriptors
import Enclosure.Duration
import Enclosure.Duration.Seconds
import Enclosure.Errno
import Enclosure.FileSystem
import Enclosure.FileSystem.Recorded
import Enclosure.FileTree
import Enclosure.Frame.Basic
import Enclosure.Frame.Item
import Enclosure.Frame.Reader
import Enclosure.Frame.Request
import Enclosure.Frame.Transfer
import Enclosure.Frame.Verdict
import Enclosure.IoFault
import Enclosure.Json.Document
import Enclosure.Limits
import Enclosure.Main
import Enclosure.Mount.Apply
import Enclosure.Mount.Basic
import Enclosure.Mount.Options
import Enclosure.Outcome.Page
import Enclosure.Outcome.Program
import Enclosure.Outcome.Race
import Enclosure.Outcome.Verdict
import Enclosure.Path
import Enclosure.Process
import Enclosure.Program.Filter
import Enclosure.Program.Resources
import Enclosure.Program.Start
import Enclosure.Request.Basic
import Enclosure.Request.Validation
import Enclosure.Sandbox.Build
import Enclosure.Settings.Basic
import Enclosure.Settings.Name
import Enclosure.Settings.Variables
import Enclosure.SetupFault
import Enclosure.Signal
import Enclosure.Supervisor.Arguments
import Enclosure.Supervisor.Fault
import Enclosure.Supervisor.Loop
import Enclosure.Supervisor.Preparation
import Enclosure.Supervisor.Server
import Enclosure.Supervisor.Session
import Enclosure.Text.Bytes
import Enclosure.Text.Digits
import Enclosure.Text.Number
import Enclosure.Text.Printable
import Enclosure.Text.Quoted
import Enclosure.Text.Scan
import Enclosure.Text.Split
import Enclosure.Toml.Date
import Enclosure.Toml.Document
import Enclosure.Toml.Number
import Enclosure.Toml.Quoted
import Enclosure.Toml.Table
import Enclosure.Verdict
import Enclosure.Proofs.Binary64.Word
import Enclosure.Proofs.Budget
import Enclosure.Proofs.Budget.Clamping
import Enclosure.Proofs.Budget.Polling
import Enclosure.Proofs.Channel
import Enclosure.Proofs.Client.Connection
import Enclosure.Proofs.Client.Connections
import Enclosure.Proofs.Client.Life
import Enclosure.Proofs.Client.Link
import Enclosure.Proofs.Client.Pairing
import Enclosure.Proofs.Client.Spawn
import Enclosure.Proofs.Client.Turn
import Enclosure.Proofs.CommandLine.Plan
import Enclosure.Proofs.Configuration.Forwarding
import Enclosure.Proofs.ControlGroup.Attempts
import Enclosure.Proofs.ControlGroup.Counter
import Enclosure.Proofs.ControlGroup.Effect
import Enclosure.Proofs.ControlGroup.Leaf
import Enclosure.Proofs.ControlGroup.Leaves
import Enclosure.Proofs.ControlGroup.Limits
import Enclosure.Proofs.ControlGroup.Removal
import Enclosure.Proofs.ControlGroup.Root
import Enclosure.Proofs.Descriptors
import Enclosure.Proofs.FileSystem
import Enclosure.Proofs.FileSystem.Recorded
import Enclosure.Proofs.FileTree
import Enclosure.Proofs.FileTree.Walk
import Enclosure.Proofs.FileTree.Clearing
import Enclosure.Proofs.FileTree.Creation
import Enclosure.Proofs.Frame
import Enclosure.Proofs.Frame.Moving
import Enclosure.Proofs.Lookup
import Enclosure.Proofs.Outcome.Account
import Enclosure.Proofs.Outcome.Call
import Enclosure.Proofs.Outcome.FirstClaim
import Enclosure.Proofs.Outcome.Message
import Enclosure.Proofs.Outcome.Race
import Enclosure.Proofs.Path
import Enclosure.Proofs.Program.Filter
import Enclosure.Proofs.Reader
import Enclosure.Proofs.Reader.Each
import Enclosure.Proofs.Reader.Strict
import Enclosure.Proofs.Request.Checks
import Enclosure.Proofs.Request.Conservation
import Enclosure.Proofs.Request.Refusal
import Enclosure.Proofs.Request.RoundTrip
import Enclosure.Proofs.Request.Stream
import Enclosure.Proofs.Request.Strict
import Enclosure.Proofs.Settings.Variables
import Enclosure.Proofs.Supervisor.Backlog
import Enclosure.Proofs.Supervisor.Counting
import Enclosure.Proofs.Supervisor.Input
import Enclosure.Proofs.Supervisor.Output
import Enclosure.Proofs.Supervisor.Queue
import Enclosure.Proofs.Supervisor.Readiness
import Enclosure.Proofs.Supervisor.Refusal
import Enclosure.Proofs.Supervisor.Run
import Enclosure.Proofs.Supervisor.Start
import Enclosure.Proofs.Supervisor.Waiting
import Enclosure.Proofs.Text.Boundary
import Enclosure.Proofs.Text.Number
import Enclosure.Proofs.Transfer
import Enclosure.Proofs.Verdict.Strict
import Enclosure.Proofs.Mount.Building
import Enclosure.Proofs.ControlGroup.Enabling
import Enclosure.Proofs.CommandLine.Steps
import Enclosure.Proofs.CommandLine.Rights
import Enclosure.Proofs.CommandLine.Order
