import HookEvents.Config.Json
import HookEvents.Main
import HookEvents.Proofs.Keyed
import HookEvents.Proofs.Symbol.Table
import HookEvents.Proofs.Symbol.ClosedForm
import HookEvents.Proofs.Text.Split
import HookEvents.Proofs.Hook.Reference
import HookEvents.Proofs.Generation.Resolve
import HookEvents.Proofs.Generation.Group
import HookEvents.Proofs.Hook.References
import HookEvents.Proofs.Generation.Blocks
import HookEvents.Proofs.Generation.Layout
import HookEvents.Proofs.Generation.Units
import HookEvents.Proofs.TypeText.Grammar
import HookEvents.Proofs.TypeText.Lexeme
import HookEvents.Proofs.TypeText.Sound
import HookEvents.Proofs.TypeText.Complete
import HookEvents.Proofs.TypeText.Exact
import HookEvents.Proofs.Json.Roundtrip
import HookEvents.Proofs.Symbol.Roundtrip
import HookEvents.Proofs.Workspace.FileSystem
import HookEvents.Proofs.Command.Export
import HookEvents.Proofs.TypeText.Rendering
import HookEvents.Proofs.TypeText.Qualify
import HookEvents.Proofs.Workspace.Tree
import HookEvents.Proofs.Workspace.Update
import HookEvents.Proofs.Workspace.Discovery
import HookEvents.Proofs.Workspace.Rescan
import HookEvents.Proofs.Workspace.Path
import HookEvents.Proofs.Workspace.Output
import HookEvents.Proofs.Workspace.SecondPass
import HookEvents.Proofs.Command.Reimport
import HookEvents.Proofs.Generation.Namesake
import HookEvents.Proofs.Generation.Qualified
import HookEvents.Proofs.Hook.Merge
import HookEvents.Proofs.TypeText.Idempotent
import HookEvents.Proofs.CSharp.Nesting
import HookEvents.Proofs.CSharp.Session
import HookEvents.Proofs.Generation.Local
import HookEvents.Proofs.Generation.Reorder
import HookEvents.Proofs.Workspace.WalkOrder
import HookEvents.Proofs.Workspace.Frame
import HookEvents.Proofs.Command.Arguments
import HookEvents.Proofs.Command.Frame
import HookEvents.Proofs.Generation.Described
import HookEvents.Proofs.CSharp.Collected
import HookEvents.Proofs.TypeText.Void
import HookEvents.Proofs.Generation.Results
import HookEvents.Proofs.CSharp.Tokens
import HookEvents.Proofs.CSharp.SpacedPath
import HookEvents.Proofs.CSharp.SingleType
import HookEvents.Proofs.Generation.Spacing
import HookEvents.Proofs.Hook.Idiom
import HookEvents.Proofs.Workspace.WriteOrder
import HookEvents.Proofs.Workspace.Failure
import HookEvents.Proofs.Workspace.Exact
import HookEvents.Proofs.Toml.Document
import HookEvents.Proofs.Toml.Lines
import HookEvents.Proofs.Config.Roundtrip
import HookEvents.Proofs.Generation.Counts
import HookEvents.Proofs.CSharp.Path
import HookEvents.Proofs.CSharp.Scanned
import HookEvents.Proofs.CSharp.Parameters
import HookEvents.Proofs.CSharp.Variables
import HookEvents.Proofs.CSharp.Place
import HookEvents.Proofs.CSharp.Structure
import HookEvents.Proofs.TypeText.Brackets
import HookEvents.Proofs.Generation.Delegates
import HookEvents.Proofs.CSharp.Declared
import HookEvents.Proofs.CSharp.Usings
import HookEvents.Proofs.CSharp.Conditional
import HookEvents.Proofs.Generation.Imports
import HookEvents.Proofs.Text.Utf8
import HookEvents.Proofs.Text.Lowercase
import HookEvents.Proofs.Workspace.Extension
import HookEvents.Proofs.Workspace.Selection
import HookEvents.Proofs.Command.Init
