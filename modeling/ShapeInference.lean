import ShapeInference.Binary64
import ShapeInference.Binary64.Shortest
import ShapeInference.Command.Arguments
import ShapeInference.Command.Cause
import ShapeInference.Command.Documents
import ShapeInference.Command.Output
import ShapeInference.Command.Request
import ShapeInference.Command.Run
import ShapeInference.Config.Behaviour
import ShapeInference.Config.Fault
import ShapeInference.Config.Reader
import ShapeInference.Defect
import ShapeInference.Descriptor.Basic
import ShapeInference.Descriptor.Form
import ShapeInference.Descriptor.Merge
import ShapeInference.Descriptor.Order
import ShapeInference.Descriptor.Text
import ShapeInference.Descriptor.Union
import ShapeInference.FieldType
import ShapeInference.Files.Basic
import ShapeInference.Files.Directory
import ShapeInference.Files.Glob
import ShapeInference.Filter.Basic
import ShapeInference.Filter.Fault
import ShapeInference.Filter.Reader
import ShapeInference.Filter.Token
import ShapeInference.Json.Basic
import ShapeInference.Json.Reader
import ShapeInference.Json.Scan
import ShapeInference.Json.Text
import ShapeInference.Main
import ShapeInference.OrderedMap
import ShapeInference.Path
import ShapeInference.Rule.Catalog
import ShapeInference.Rule.Declaration
import ShapeInference.Rule.Fault
import ShapeInference.Rule.Payload
import ShapeInference.Rule.Strategy
import ShapeInference.Rulebook
import ShapeInference.Schema
import ShapeInference.Text.Printable
import ShapeInference.Text.Shown
import ShapeInference.Tree.Basic
import ShapeInference.Tree.Insert
import ShapeInference.Tree.Reconcile
import ShapeInference.Proofs.Binary64
import ShapeInference.Proofs.Bindings
import ShapeInference.Proofs.Descriptor.Form
import ShapeInference.Proofs.Descriptor.Normal
import ShapeInference.Proofs.Descriptor.Merge
import ShapeInference.Proofs.Descriptor.Conflict
import ShapeInference.Proofs.Tree.Rejection
import ShapeInference.Proofs.Group
import ShapeInference.Proofs.Tree.Gathering
import ShapeInference.Proofs.Descriptor.Bound
import ShapeInference.Proofs.Descriptor.Join
import ShapeInference.Proofs.Meaning
import ShapeInference.Proofs.Rulebook
import ShapeInference.Proofs.Tree.Reconcile
import ShapeInference.Proofs.Tree.Normal
import ShapeInference.Proofs.Schema.Meaning
import ShapeInference.Proofs.Schema.Order
import ShapeInference.Proofs.Descriptor.Reach
import ShapeInference.Proofs.Tree.Places
import ShapeInference.Proofs.Schema.Reach
import ShapeInference.Proofs.Schema.Absence
import ShapeInference.Proofs.Tree.Obstacle
import ShapeInference.Proofs.Tree.Disagreement
import ShapeInference.Proofs.Schema.Join
import ShapeInference.Proofs.Path
import ShapeInference.Proofs.Schema.Fields
import ShapeInference.Proofs.Schema.Nesting
import ShapeInference.Proofs.Descriptor.Closed
import ShapeInference.Proofs.Json.Numbers
import ShapeInference.Proofs.Schema.Fixpoint
import ShapeInference.Proofs.Descriptor.Compatible
import ShapeInference.Proofs.Descriptor.Trail
import ShapeInference.Proofs.Tree.Shape
import ShapeInference.Proofs.Binary64.Shortest
import ShapeInference.Proofs.Json.Text
import ShapeInference.Proofs.Path.Grammar
import ShapeInference.Proofs.Descriptor.Lines
import ShapeInference.Proofs.Descriptor.Expression
import ShapeInference.Proofs.Schema.HintFields
import ShapeInference.Proofs.Rule.Payload
import ShapeInference.Proofs.Rule.Parts
import ShapeInference.Proofs.Rule.Strategy
import ShapeInference.Proofs.Descriptor.Reordered
import ShapeInference.Proofs.Rule.Reordered
import ShapeInference.Proofs.Rule.Relevant
import ShapeInference.Proofs.Schema.Structure
import ShapeInference.Proofs.Schema.Elements
import ShapeInference.Proofs.Rule.Position
import ShapeInference.Proofs.Rule.Known
import ShapeInference.Proofs.Rule.Optional
import ShapeInference.Proofs.Descriptor.TotalOrder
import ShapeInference.Proofs.Descriptor.Value
import ShapeInference.Proofs.Descriptor.TotalOrder
import ShapeInference.Proofs.Command.Documents
import ShapeInference.Proofs.Command.Output
