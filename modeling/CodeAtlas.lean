import CodeAtlas.CommandLine.Report
import CodeAtlas.Config.Json
import CodeAtlas.FileSystem.Snapshot
import CodeAtlas.Main
import CodeAtlas.Proofs.FileSystem.Place
import CodeAtlas.Proofs.FileSystem.Resolve
import CodeAtlas.Proofs.Survey.Files
import CodeAtlas.Proofs.Python.Program
import CodeAtlas.Proofs.Python.Span
import CodeAtlas.Proofs.Python.Spelling
import CodeAtlas.Proofs.Python.Layout
import CodeAtlas.Proofs.Python.LineKind
import CodeAtlas.Proofs.Python.Ending
import CodeAtlas.Proofs.Python.Recovery
import CodeAtlas.Proofs.FileSystem.Node
import CodeAtlas.Proofs.FileSystem.Write
import CodeAtlas.Proofs.Repository.Fetch
import CodeAtlas.Proofs.Repository.Calls
import CodeAtlas.Proofs.Run.Clone
import CodeAtlas.Proofs.Text.Utf8
import CodeAtlas.Proofs.FileSystem.Order
import CodeAtlas.Proofs.Text.Lowercase
import CodeAtlas.Proofs.Ignore
import CodeAtlas.Proofs.Survey.Walk
import CodeAtlas.Proofs.Survey.Relative
import CodeAtlas.Proofs.Survey.Relocation
import CodeAtlas.Proofs.Survey.Link
import CodeAtlas.Proofs.Text.Decimal
import CodeAtlas.Proofs.Json.Token
import CodeAtlas.Proofs.Json.Reader
import CodeAtlas.Proofs.List
import CodeAtlas.Proofs.Json.Fields
import CodeAtlas.Proofs.Survey.Json
import CodeAtlas.Proofs.Json.Edited
import CodeAtlas.Proofs.Toml.Quoted
import CodeAtlas.Proofs.Toml.Document
import CodeAtlas.Proofs.Config.Toml
import CodeAtlas.Proofs.Diagram.Tree
import CodeAtlas.Proofs.Document.Lines
import CodeAtlas.Proofs.Document.Overview
import CodeAtlas.Proofs.Document.Size
import CodeAtlas.Proofs.Run.Local
import CodeAtlas.Proofs.Run.Again
import CodeAtlas.Proofs.Tree.Forest
import CodeAtlas.Proofs.Tree.Levels
import CodeAtlas.Proofs.Tree.Nodes
import CodeAtlas.Proofs.Diagram.Graph
import CodeAtlas.Proofs.FileSystem.Removal
import CodeAtlas.Proofs.Repository.Cleanup
import CodeAtlas.Proofs.Url.Spelling
import CodeAtlas.Proofs.Url.Escape
import CodeAtlas.Proofs.Repository.Address
import CodeAtlas.Proofs.Survey.Totals
import CodeAtlas.Proofs.CommandLine.Reader
import CodeAtlas.Proofs.Run.Precedence
