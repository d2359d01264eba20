import RestPlugin.Code.Fragment
import RestPlugin.Command.Arguments
import RestPlugin.Command.Generate
import RestPlugin.Command.Run
import RestPlugin.Config.Decode
import RestPlugin.Config.Encode
import RestPlugin.Config.Error
import RestPlugin.Config.Load
import RestPlugin.Config.Model
import RestPlugin.Config.Validate
import RestPlugin.Controller.CachePlan
import RestPlugin.Controller.Class
import RestPlugin.Controller.Kind
import RestPlugin.Controller.Metadata
import RestPlugin.Digest.Sha256
import RestPlugin.Files.Disk
import RestPlugin.Files.Memory
import RestPlugin.Files.System
import RestPlugin.Handler.Basic
import RestPlugin.Handler.Compose
import RestPlugin.Handler.Noting
import RestPlugin.Handler.Post
import RestPlugin.Handler.Single
import RestPlugin.Handler.Term
import RestPlugin.Handler.Transient
import RestPlugin.Ir.Basic
import RestPlugin.Ir.Build
import RestPlugin.Ir.Capability
import RestPlugin.Ir.Encode
import RestPlugin.Ir.Error
import RestPlugin.Ir.Identity
import RestPlugin.Ir.Resource
import RestPlugin.Ir.Route
import RestPlugin.Ir.Schema
import RestPlugin.Ir.Storage
import RestPlugin.Json.Basic
import RestPlugin.Json.Number
import RestPlugin.Json.Reader
import RestPlugin.Json.Writer
import RestPlugin.Keyed
import RestPlugin.Main
import RestPlugin.Number.Binary64
import RestPlugin.Number.Range
import RestPlugin.Number.Shortest
import RestPlugin.Output.File
import RestPlugin.Output.Write
import RestPlugin.Path
import RestPlugin.Php.Build
import RestPlugin.Php.Encode
import RestPlugin.Php.Marker
import RestPlugin.Php.Printer
import RestPlugin.Php.Shape
import RestPlugin.Php.Syntax
import RestPlugin.Pipeline.Context
import RestPlugin.Pipeline.Core
import RestPlugin.Pipeline.Diagnostic
import RestPlugin.Pipeline.Helper
import RestPlugin.Pipeline.Reach
import RestPlugin.Pipeline.Run
import RestPlugin.Pipeline.Schedule
import RestPlugin.Plugin.Builders
import RestPlugin.Plugin.Manifest
import RestPlugin.Plugin.Policy
import RestPlugin.Plugin.Source
import RestPlugin.Report.Entry
import RestPlugin.Snippet.Basic
import RestPlugin.Snippet.Identity
import RestPlugin.Snippet.Query
import RestPlugin.Snippet.Status
import RestPlugin.Snippet.Sync
import RestPlugin.Source.Decode
import RestPlugin.Source.Node
import RestPlugin.Source.Position
import RestPlugin.Terms
import RestPlugin.Text.Ascii
import RestPlugin.Text.LetterCase
import RestPlugin.Text.Lines
import RestPlugin.Text.Naming
import RestPlugin.Text.Slug
import RestPlugin.Toml.Lexical
import RestPlugin.Toml.Moment
import RestPlugin.Toml.Reader
import RestPlugin.Toml.Scalar
import RestPlugin.Toml.Tree
import RestPlugin.Proofs.Pipeline.Blocking
import RestPlugin.Proofs.Pipeline.Order
import RestPlugin.Proofs.Pipeline.Schedule
import RestPlugin.Proofs.Pipeline.Diagnostic
import RestPlugin.Proofs.Pipeline.Registration
import RestPlugin.Proofs.Pipeline.Run
import RestPlugin.Proofs.Pipeline.Report
import RestPlugin.Proofs.Except
import RestPlugin.Proofs.Lists
import RestPlugin.Proofs.Inquiry
import RestPlugin.Proofs.Ir.Schema
import RestPlugin.Proofs.Ir.Resource
import RestPlugin.Proofs.Ir.Routes
import RestPlugin.Proofs.Pipeline.Core
import RestPlugin.Proofs.Ir.Capability
import RestPlugin.Proofs.Ir.Definitions
import RestPlugin.Proofs.Ir.Reordering
import RestPlugin.Proofs.Number.Binary64
import RestPlugin.Proofs.Number.Shortest
import RestPlugin.Proofs.Json.Number
import RestPlugin.Proofs.Json.RoundTrip
import RestPlugin.Proofs.Files.Lawful
import RestPlugin.Proofs.Output.Write
import RestPlugin.Proofs.Controller.Segments
import RestPlugin.Proofs.Plugin.Manifest
import RestPlugin.Proofs.Plugin.Files
import RestPlugin.Proofs.Command.Generate
import RestPlugin.Proofs.Command.History
import RestPlugin.Proofs.Json.Canonical
import RestPlugin.Proofs.Json.Normal
import RestPlugin.Proofs.Ir.Encode
import RestPlugin.Proofs.Controller.Redraw
import RestPlugin.Proofs.Plugin.Alike
import RestPlugin.Proofs.Php.Lines
import RestPlugin.Proofs.Php.Layout
import RestPlugin.Proofs.Php.Regular
import RestPlugin.Proofs.Php.Everywhere
import RestPlugin.Proofs.Php.Closed
import RestPlugin.Proofs.Php.Execution
import RestPlugin.Proofs.Php.Frame
import RestPlugin.Proofs.Php.Reader
import RestPlugin.Proofs.Php.Tokens
import RestPlugin.Proofs.Php.Atoms
import RestPlugin.Proofs.Php.Unambiguous
import RestPlugin.Proofs.Php.Literals
import RestPlugin.Proofs.Php.Printed
import RestPlugin.Proofs.Text.Naming
import RestPlugin.Proofs.Php.Names
import RestPlugin.Proofs.Config.Checked
import RestPlugin.Proofs.Config.Warnings
import RestPlugin.Proofs.Ir.Names
import RestPlugin.Proofs.Ir.Paths
import RestPlugin.Proofs.Ir.Declarations
import RestPlugin.Proofs.Ir.Unambiguous
import RestPlugin.Proofs.Ir.Shadowing
import RestPlugin.Proofs.Ir.Loaded
import RestPlugin.Proofs.Handler.Total
import RestPlugin.Proofs.Handler.Calls
import RestPlugin.Proofs.Controller.Endpoints
import RestPlugin.Proofs.Controller.Total
import RestPlugin.Proofs.Controller.Handlers
import RestPlugin.Proofs.Controller.Checks
import RestPlugin.Proofs.Plugin.Misnamed
import RestPlugin.Proofs.Plugin.Controllers
import RestPlugin.Proofs.Handler.Notes
import RestPlugin.Proofs.Plugin.Comments
import RestPlugin.Proofs.Plugin.Capabilities
import RestPlugin.Proofs.Plugin.Enforcement
import RestPlugin.Proofs.Plugin.Unguarded
import RestPlugin.Proofs.Controller.Pieces
import RestPlugin.Proofs.Controller.Calls
import RestPlugin.Proofs.Php.Paths
import RestPlugin.Proofs.Php.Uses
import RestPlugin.Proofs.Php.Settled
import RestPlugin.Proofs.Handler.Variables
import RestPlugin.Proofs.Plugin.Sources
import RestPlugin.Proofs.Plugin.Variables
import RestPlugin.Proofs.Php.WellFormed
import RestPlugin.Proofs.Plugin.WellFormed
import RestPlugin.Proofs.Plugin.Classes
import RestPlugin.Proofs.Plugin.Inventory
import RestPlugin.Proofs.Controller.Patterns
import RestPlugin.Proofs.Plugin.Isolation
import RestPlugin.Proofs.Command.Warnings
import RestPlugin.Proofs.Pipeline.Failure
import RestPlugin.Proofs.Pipeline.Phase
import RestPlugin.Proofs.Pipeline.Priority
import RestPlugin.Proofs.Controller.Inference
import RestPlugin.Proofs.Php.Chains
import RestPlugin.Proofs.Php.Comparisons
import RestPlugin.Proofs.Ir.Renormalising
import RestPlugin.Proofs.Handler.Markers
import RestPlugin.Proofs.Ir.PostTypes
import RestPlugin.Proofs.Handler.Noting
import RestPlugin.Proofs.Output.Batch
import RestPlugin.Proofs.Ir.Finalising
import RestPlugin.Proofs.Text.Casing
import RestPlugin.Proofs.Config.Namespace
import RestPlugin.Proofs.Text.Bytes
import RestPlugin.Proofs.Placeholders
import RestPlugin.Proofs.Source.Position
