import Chronicle.Command
import Chronicle.CommandLine.Answer
import Chronicle.CommandLine.Options
import Chronicle.CommandLine.Output
import Chronicle.Compile
import Chronicle.Document.Basic
import Chronicle.Document.Json.Fault
import Chronicle.Document.Json.Printer
import Chronicle.Document.Json.Reader
import Chronicle.Document.Toml.Lexical
import Chronicle.Document.Toml.Number
import Chronicle.Document.Toml.Reader
import Chronicle.Document.Yaml.Cursor
import Chronicle.Document.Yaml.Piece
import Chronicle.Document.Yaml.Reader
import Chronicle.Document.Yaml.Scalar
import Chronicle.Document.Yaml.Token
import Chronicle.Event.Basic
import Chronicle.Event.Decode
import Chronicle.Event.Field
import Chronicle.Event.Kind
import Chronicle.Event.Shorthand
import Chronicle.Failure
import Chronicle.FileTree
import Chronicle.Generate
import Chronicle.Main
import Chronicle.Merge.Diff
import Chronicle.Merge.Lines
import Chronicle.Merge.Rename
import Chronicle.Merge.Similarity
import Chronicle.Merge.Trees
import Chronicle.Merge.Versions
import Chronicle.Number.Binary64
import Chronicle.Number.Decimal
import Chronicle.Number.Numeral
import Chronicle.Number.Power
import Chronicle.Path
import Chronicle.PathMap
import Chronicle.Replay.Basic
import Chronicle.Replay.Recorder
import Chronicle.Repository.Basic
import Chronicle.Repository.Checkout
import Chronicle.Repository.Error
import Chronicle.Repository.History
import Chronicle.Repository.Ignore
import Chronicle.Repository.Index
import Chronicle.Repository.RefName
import Chronicle.Repository.Revision
import Chronicle.Repository.Signature
import Chronicle.Repository.Workspace
import Chronicle.Request.Basic
import Chronicle.Request.Decode
import Chronicle.Request.Load
import Chronicle.Request.Read
import Chronicle.Steps
import Chronicle.Storage.Digest
import Chronicle.Storage.Layout
import Chronicle.Storage.Object
import Chronicle.Text.Blank
import Chronicle.Text.Markless
import Chronicle.Text.Quoted
import Chronicle.Text.Wildcard
import Chronicle.Proofs.CommandLine.Options
import Chronicle.Proofs.Compile.Authorship
import Chronicle.Proofs.Compile.Event
import Chronicle.Proofs.Compile.Forms
import Chronicle.Proofs.Compile.Linear
import Chronicle.Proofs.Compile.Log
import Chronicle.Proofs.Compile.Needs
import Chronicle.Proofs.Compile.ReadBack
import Chronicle.Proofs.Document.Json
import Chronicle.Proofs.Document.JsonBuilt
import Chronicle.Proofs.Document.JsonNumeral
import Chronicle.Proofs.Document.Plain
import Chronicle.Proofs.Document.Toml
import Chronicle.Proofs.Document.TomlNumeral
import Chronicle.Proofs.Document.TomlRest
import Chronicle.Proofs.Document.Worded
import Chronicle.Proofs.Document.Yaml
import Chronicle.Proofs.Document.YamlNumbers
import Chronicle.Proofs.Document.YamlNumeral
import Chronicle.Proofs.Document.YamlPieces
import Chronicle.Proofs.Document.YamlRest
import Chronicle.Proofs.Event.Decode
import Chronicle.Proofs.Event.Fields
import Chronicle.Proofs.Event.Record
import Chronicle.Proofs.Event.Shorthand
import Chronicle.Proofs.FileTree.Clear
import Chronicle.Proofs.FileTree.Paths
import Chronicle.Proofs.FileTree.Sound
import Chronicle.Proofs.Generate.Below
import Chronicle.Proofs.Generate.Joined
import Chronicle.Proofs.Generate.Linear
import Chronicle.Proofs.Generate.Missing
import Chronicle.Proofs.Generate.Phases
import Chronicle.Proofs.Generate.Report
import Chronicle.Proofs.Generate.Writing
import Chronicle.Proofs.Merge.Behind
import Chronicle.Proofs.Merge.Moved
import Chronicle.Proofs.Merge.Regions
import Chronicle.Proofs.Merge.Replaced
import Chronicle.Proofs.Merge.Settling
import Chronicle.Proofs.Merge.Trees
import Chronicle.Proofs.Number.Numeral
import Chronicle.Proofs.Number.Rounding
import Chronicle.Proofs.Number.Shortest
import Chronicle.Proofs.Number.Written
import Chronicle.Proofs.Replay.Basic
import Chronicle.Proofs.Replay.Trace
import Chronicle.Proofs.Repository.Checkout
import Chronicle.Proofs.Repository.Descent
import Chronicle.Proofs.Repository.Names
import Chronicle.Proofs.Repository.RefName
import Chronicle.Proofs.Repository.Refresh
import Chronicle.Proofs.Repository.Resolution
import Chronicle.Proofs.Repository.Restore
import Chronicle.Proofs.Repository.Rooted
import Chronicle.Proofs.Repository.Staging
import Chronicle.Proofs.Repository.Switch
import Chronicle.Proofs.Request.Entries
import Chronicle.Proofs.Request.Numbers
import Chronicle.Proofs.Request.RoundTrip
import Chronicle.Proofs.Text.Trim
import Chronicle.Proofs.Workspace.AppendOnly
import Chronicle.Proofs.Workspace.Contained
import Chronicle.Proofs.Workspace.Creating
import Chronicle.Proofs.Workspace.Failed
import Chronicle.Proofs.Workspace.Forwarding
import Chronicle.Proofs.Workspace.Merging
import Chronicle.Proofs.Workspace.Missing
import Chronicle.Proofs.Workspace.OneRoot
import Chronicle.Proofs.Workspace.Placeable
import Chronicle.Proofs.Workspace.Refreshing
import Chronicle.Proofs.Workspace.Revising
import Chronicle.Proofs.Workspace.Snapshot
import Chronicle.Proofs.Workspace.StagingWritten
import Chronicle.Proofs.Workspace.Switching
import Chronicle.Proofs.Workspace.TheirsWin
