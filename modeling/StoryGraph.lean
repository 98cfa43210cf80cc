import StoryGraph.Bubble
import StoryGraph.Command.Arguments
import StoryGraph.Command.Check
import StoryGraph.Command.Run
import StoryGraph.Connection
import StoryGraph.Document.Options
import StoryGraph.Document.Project
import StoryGraph.Document.Scene
import StoryGraph.Error
import StoryGraph.FileTree
import StoryGraph.Files
import StoryGraph.Indent
import StoryGraph.Json.Fields
import StoryGraph.Json.Reader
import StoryGraph.Json.Token
import StoryGraph.Json.Value
import StoryGraph.Json.Writer
import StoryGraph.Main
import StoryGraph.Options
import StoryGraph.Path
import StoryGraph.Project.Backup
import StoryGraph.Project.Basic
import StoryGraph.Project.Compile
import StoryGraph.Project.Edit
import StoryGraph.Project.InPlace
import StoryGraph.Project.Load
import StoryGraph.Project.Store
import StoryGraph.Project.WellFormed
import StoryGraph.Proofs.Allocation
import StoryGraph.Proofs.Document.Options
import StoryGraph.Proofs.Document.RoundTrip
import StoryGraph.Proofs.Files.Names
import StoryGraph.Proofs.Files.Steps
import StoryGraph.Proofs.Files.Tree
import StoryGraph.Proofs.Indent
import StoryGraph.Proofs.Json.RoundTrip
import StoryGraph.Proofs.Json.Tokens
import StoryGraph.Proofs.Outcome
import StoryGraph.Proofs.Project.Admission
import StoryGraph.Proofs.Project.Alike
import StoryGraph.Proofs.Project.Backup
import StoryGraph.Proofs.Project.Check
import StoryGraph.Proofs.Project.Compile
import StoryGraph.Proofs.Project.Edit
import StoryGraph.Proofs.Project.Entrance
import StoryGraph.Proofs.Project.Export
import StoryGraph.Proofs.Project.InPlace
import StoryGraph.Proofs.Project.Linking
import StoryGraph.Proofs.Project.Load
import StoryGraph.Proofs.Project.Recompile
import StoryGraph.Proofs.Project.RoundTrip
import StoryGraph.Proofs.Project.Save
import StoryGraph.Proofs.Project.Undo
import StoryGraph.Proofs.Project.Variables
import StoryGraph.Proofs.Scene.Adding
import StoryGraph.Proofs.Scene.Alike
import StoryGraph.Proofs.Scene.Bounds
import StoryGraph.Proofs.Scene.Course
import StoryGraph.Proofs.Scene.Coverage
import StoryGraph.Proofs.Scene.Edit
import StoryGraph.Proofs.Scene.InPlace
import StoryGraph.Proofs.Scene.Joinless
import StoryGraph.Proofs.Scene.Lookup
import StoryGraph.Proofs.Scene.Numbering
import StoryGraph.Proofs.Scene.Outlet
import StoryGraph.Proofs.Scene.Pool
import StoryGraph.Proofs.Scene.Reachable
import StoryGraph.Proofs.Scene.Recursion
import StoryGraph.Proofs.Scene.Refresh
import StoryGraph.Proofs.Scene.Repair
import StoryGraph.Proofs.Scene.Search
import StoryGraph.Proofs.Scene.Sequence
import StoryGraph.Proofs.Scene.SlotMap
import StoryGraph.Proofs.Scene.Sound
import StoryGraph.Proofs.Scene.Traversal
import StoryGraph.Proofs.Scene.Undo
import StoryGraph.Proofs.Scene.Views
import StoryGraph.Proofs.Scene.Ways
import StoryGraph.Proofs.Script.Alike
import StoryGraph.Proofs.Script.Content
import StoryGraph.Proofs.Script.Depth
import StoryGraph.Proofs.Script.Entrance
import StoryGraph.Proofs.Script.Failure
import StoryGraph.Proofs.Script.FinalPass
import StoryGraph.Proofs.Script.Forcing
import StoryGraph.Proofs.Script.Forest
import StoryGraph.Proofs.Script.Jumps
import StoryGraph.Proofs.Script.Layout
import StoryGraph.Proofs.Script.Margin
import StoryGraph.Proofs.Script.Names
import StoryGraph.Proofs.Script.Naming
import StoryGraph.Proofs.Script.Part
import StoryGraph.Proofs.Script.Pass
import StoryGraph.Proofs.Script.Place
import StoryGraph.Proofs.Script.Play
import StoryGraph.Proofs.Script.Straight
import StoryGraph.Proofs.Script.Termination
import StoryGraph.Proofs.Script.Travel
import StoryGraph.Proofs.Script.Tree
import StoryGraph.Proofs.Script.Unfold
import StoryGraph.Scene.Basic
import StoryGraph.Scene.Edit
import StoryGraph.Scene.InPlace
import StoryGraph.Scene.Order
import StoryGraph.Scene.Reachable
import StoryGraph.Scene.Repair
import StoryGraph.Scene.Sequence
import StoryGraph.Scene.WellFormed
import StoryGraph.Script.Emit
import StoryGraph.Script.Label
import StoryGraph.Script.Line
import StoryGraph.Script.Preamble
import StoryGraph.Text.Blank
import StoryGraph.Text.Decimal
import StoryGraph.Text.Lines
import StoryGraph.Uid
import StoryGraph.UpdateFirst
