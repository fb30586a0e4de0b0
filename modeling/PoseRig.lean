import PoseRig.Document.Library
import PoseRig.Document.Real
import PoseRig.Document.Scene
import PoseRig.Document.Session
import PoseRig.Document.Value
import PoseRig.Edit.Action
import PoseRig.Edit.Nested
import PoseRig.Edit.Session
import PoseRig.Expr.Basic
import PoseRig.Expr.Parser
import PoseRig.Expr.Token
import PoseRig.Fault
import PoseRig.Json.Basic
import PoseRig.Json.Decode
import PoseRig.Json.Printer
import PoseRig.Json.Reader
import PoseRig.Label
import PoseRig.Naming.Numbered
import PoseRig.Naming.Side
import PoseRig.Network.Blend
import PoseRig.Network.Build
import PoseRig.Network.Compile
import PoseRig.Network.Inputs
import PoseRig.Network.Names
import PoseRig.Network.Purge
import PoseRig.Number.Binary
import PoseRig.Number.Bounds
import PoseRig.Number.Decimal
import PoseRig.Number.Scalar
import PoseRig.Number.Shortest
import PoseRig.Number.Text
import PoseRig.Pose.Actions
import PoseRig.Pose.Basic
import PoseRig.Pose.Bones
import PoseRig.Pose.Library
import PoseRig.Pose.Opposite
import PoseRig.Pose.Validity
import PoseRig.Preferences
import PoseRig.Property.Path
import PoseRig.Property.PathReader
import PoseRig.Property.Resolve
import PoseRig.Property.Value
import PoseRig.Report
import PoseRig.Rotation.Euler
import PoseRig.Rotation.Quaternion
import PoseRig.Scene.Action
import PoseRig.Scene.Author
import PoseRig.Scene.Basic
import PoseRig.Scene.Channel
import PoseRig.Scene.Constraint
import PoseRig.Scene.Driver
import PoseRig.Scene.Evaluate
import PoseRig.Scene.Object
import PoseRig.Scene.Property
import PoseRig.Scene.World
import PoseRig.Table
import PoseRig.Text.Blank
import PoseRig.Transform
import PoseRig.Workspace.Basic
import PoseRig.Workspace.Command
import PoseRig.Workspace.Query
import PoseRig.Proofs.Naming.Fresh
import PoseRig.Proofs.Network.Names
import PoseRig.Proofs.Table
import PoseRig.Proofs.Network.Place
import PoseRig.Proofs.Scene.Object
import PoseRig.Proofs.Network.Compile
import PoseRig.Proofs.Network.Recompile
import PoseRig.Proofs.Edit.RoundTrip
import PoseRig.Proofs.Expr.Grammar
import PoseRig.Proofs.Expr.Scan
import PoseRig.Proofs.Network.Blend
import PoseRig.Proofs.Network.Evaluate
import PoseRig.Proofs.Pose.Library
import PoseRig.Proofs.Network.Unfolding
import PoseRig.Proofs.Network.Combo
import PoseRig.Proofs.Network.Gate
import PoseRig.Proofs.Network.Layout
import PoseRig.Proofs.Pose.Arrangement
import PoseRig.Proofs.Scene.ActionRefs
import PoseRig.Proofs.Network.ActionRefs
import PoseRig.Proofs.Workspace.Grounded
import PoseRig.Proofs.Property.RoundTrip
import PoseRig.Proofs.Workspace.Program
import PoseRig.Proofs.Workspace.Atomic
import PoseRig.Proofs.Scene.Context
import PoseRig.Proofs.Edit.Context
import PoseRig.Proofs.Edit.Leaving
import PoseRig.Proofs.Workspace.Modes
import PoseRig.Proofs.Edit.Rename
import PoseRig.Proofs.Edit.Nested
import PoseRig.Proofs.Network.Copy
import PoseRig.Proofs.Network.Reorder
import PoseRig.Proofs.Document.Codec
import PoseRig.Proofs.Document.Value
import PoseRig.Proofs.Document.Scene
import PoseRig.Proofs.Number.Exact
import PoseRig.Proofs.Document.Library
import PoseRig.Proofs.Document.Reload
import PoseRig.Proofs.Property.Grammar
import PoseRig.Proofs.Expr.Language
import PoseRig.Proofs.Edit.BreadthFirst
import PoseRig.Proofs.Scene.Undriven
import PoseRig.Proofs.Edit.Isolation
import PoseRig.Proofs.Naming.Side
import PoseRig.Proofs.Pose.Opposite
import PoseRig.Proofs.Pose.Renaming
import PoseRig.Proofs.Scene.ReadBack
import PoseRig.Proofs.Pose.Deletion
import PoseRig.Proofs.Scene.Selecting
import PoseRig.Proofs.Scene.Commuting
import PoseRig.Proofs.Scene.Slots
import PoseRig.Proofs.Network.Driven
import PoseRig.Proofs.FirstOccurrence
import PoseRig.Proofs.Expr.Variables
import PoseRig.Proofs.Pose.BoneList
import PoseRig.Proofs.Scene.Ancestry
import PoseRig.Proofs.Network.Agreement
import PoseRig.Proofs.Network.Growth
import PoseRig.Proofs.Number.Multiple
import PoseRig.Proofs.Scene.Groups
import PoseRig.Proofs.Scene.Flat
import PoseRig.Proofs.Rotation.Exact
import PoseRig.Proofs.Naming.Numbered
import PoseRig.Proofs.Json.RoundTrip
