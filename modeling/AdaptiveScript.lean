import AdaptiveScript.Number.Binary64
import AdaptiveScript.Number.Decimal
import AdaptiveScript.Number.Numeral
import AdaptiveScript.Text.Blank
import AdaptiveScript.Text.Printable
import AdaptiveScript.Text.Quoted
import AdaptiveScript.Operator
import AdaptiveScript.Value
import AdaptiveScript.Ty
import AdaptiveScript.Error
import AdaptiveScript.Arithmetic
import AdaptiveScript.Association
import AdaptiveScript.Table
import AdaptiveScript.Conversion
import AdaptiveScript.Program
import AdaptiveScript.Host
import AdaptiveScript.Shape
import AdaptiveScript.Signature
import AdaptiveScript.File
import AdaptiveScript.Config
import AdaptiveScript.Linking.Policy
import AdaptiveScript.Journal
import AdaptiveScript.Digest
import AdaptiveScript.Knowledge
import AdaptiveScript.Ghost
import AdaptiveScript.Inference
import AdaptiveScript.Code
import AdaptiveScript.Heap
import AdaptiveScript.Membership
import AdaptiveScript.Specialization
import AdaptiveScript.Linking.Site
import AdaptiveScript.Emission
import AdaptiveScript.Machine
import AdaptiveScript.Compilation
import AdaptiveScript.Frame
import AdaptiveScript.Loop
import AdaptiveScript.Execution
import AdaptiveScript.Linking.Linker
import AdaptiveScript.Call
import AdaptiveScript.Config.Text
import AdaptiveScript.Config.File
import AdaptiveScript.Toml.Node
import AdaptiveScript.Toml.Text
import AdaptiveScript.Toml.Atom
import AdaptiveScript.Toml.Reader
import AdaptiveScript.Proofs.Shape.Forest
import AdaptiveScript.Proofs.Program.Scope
import AdaptiveScript.Proofs.Inference.TypeSystem
import AdaptiveScript.Proofs.Inference.Expression
import AdaptiveScript.Proofs.Inference.Analysis
import AdaptiveScript.Proofs.Code.Boxed
import AdaptiveScript.Proofs.Emission.Relation
import AdaptiveScript.Proofs.Emission.Soundness
import AdaptiveScript.Proofs.Machine.Growth
import AdaptiveScript.Proofs.Machine.Sound
import AdaptiveScript.Proofs.Machine.Compilation
import AdaptiveScript.Proofs.Linking.Check
import AdaptiveScript.Proofs.Linking.Dispatch
import AdaptiveScript.Proofs.Run.Statement
import AdaptiveScript.Proofs.Run.Objects
import AdaptiveScript.Proofs.Run.Frame
import AdaptiveScript.Proofs.Run.Operators
import AdaptiveScript.Proofs.Run.Routine
import AdaptiveScript.Proofs.Linking.Failure
import AdaptiveScript.Proofs.Run.Call
import AdaptiveScript.Proofs.Shape.History
import AdaptiveScript.Proofs.Linking.Policy
import AdaptiveScript.Proofs.Linking.Publication
import AdaptiveScript.Proofs.Run.Operation
import AdaptiveScript.Proofs.Run.Settling
import AdaptiveScript.Proofs.Run.Invocation
import AdaptiveScript.Proofs.Run.Transparency
import AdaptiveScript.Proofs.Table.History
import AdaptiveScript.Proofs.Run.Observation
import AdaptiveScript.Proofs.Run.Access
import AdaptiveScript.Proofs.Run.Results
import AdaptiveScript.Proofs.Table.Key
import AdaptiveScript.Proofs.Run.Loop
import AdaptiveScript.Proofs.Run.Ledger
import AdaptiveScript.Proofs.Run.Accounts
import AdaptiveScript.Proofs.Run.Rounds
import AdaptiveScript.Proofs.Run.TypedOperators
import AdaptiveScript.Proofs.Shape.Confluence
import AdaptiveScript.Proofs.Emission.Faults
import AdaptiveScript.Proofs.Run.Compilability
import AdaptiveScript.Proofs.Number.FlooredDivision
import AdaptiveScript.Proofs.Number.ExactOrder
import AdaptiveScript.Proofs.Shape.Count
import AdaptiveScript.Proofs.Inference.Course
import AdaptiveScript.Proofs.Inference.Convergence
import AdaptiveScript.Proofs.Inference.Merging
import AdaptiveScript.Proofs.Inference.Consistency
import AdaptiveScript.Proofs.Number.Literal
import AdaptiveScript.Proofs.Program.Captures
import AdaptiveScript.Proofs.Run.Variables
import AdaptiveScript.Proofs.Emission.Guarded
import AdaptiveScript.Proofs.Run.Boxing
import AdaptiveScript.Proofs.Inference.Reading
import AdaptiveScript.Proofs.Inference.LastPass
import AdaptiveScript.Proofs.Emission.Typing
import AdaptiveScript.Proofs.Run.EmittedTypes
import AdaptiveScript.Proofs.Run.LoopRounds
import AdaptiveScript.Proofs.Run.Endings
import AdaptiveScript.Proofs.Run.Cells
import AdaptiveScript.Proofs.Run.Sharing
