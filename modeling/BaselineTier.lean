import BaselineTier.Atom
import BaselineTier.Breach
import BaselineTier.Cache.Fallback
import BaselineTier.Cache.Kind
import BaselineTier.Cache.Table
import BaselineTier.Code.Buffer
import BaselineTier.Code.Inst
import BaselineTier.Code.Linked
import BaselineTier.Compilation
import BaselineTier.CompileError
import BaselineTier.Decimal.Reading
import BaselineTier.Decimal.Shortest
import BaselineTier.Decimal.Text
import BaselineTier.Double.Arithmetic
import BaselineTier.Double.Basic
import BaselineTier.Host
import BaselineTier.Instruction.Basic
import BaselineTier.Instruction.Bytes
import BaselineTier.Instruction.Decoding
import BaselineTier.Instruction.Literal
import BaselineTier.Instruction.Writer
import BaselineTier.Interpreter
import BaselineTier.Lowering.Basic
import BaselineTier.Lowering.Branches
import BaselineTier.Lowering.Operators
import BaselineTier.Lowering.Shuffle
import BaselineTier.Lowering.Table
import BaselineTier.Machine.Frame
import BaselineTier.Machine.Step
import BaselineTier.Machine.Stub
import BaselineTier.Method
import BaselineTier.Opcode
import BaselineTier.Program.Basic
import BaselineTier.Program.Builder
import BaselineTier.Proofs.Accounting
import BaselineTier.Proofs.Activation
import BaselineTier.Proofs.Agreement
import BaselineTier.Proofs.Allocation
import BaselineTier.Proofs.Annotation
import BaselineTier.Proofs.Arrival
import BaselineTier.Proofs.Assembly
import BaselineTier.Proofs.Body
import BaselineTier.Proofs.Bounds
import BaselineTier.Proofs.Boxing
import BaselineTier.Proofs.Branches
import BaselineTier.Proofs.Carrying
import BaselineTier.Proofs.Census
import BaselineTier.Proofs.Chains
import BaselineTier.Proofs.Chart
import BaselineTier.Proofs.Comparison
import BaselineTier.Proofs.Compilation
import BaselineTier.Proofs.Correspondence
import BaselineTier.Proofs.DebugMode
import BaselineTier.Proofs.Elementwise
import BaselineTier.Proofs.Emission
import BaselineTier.Proofs.Emulation
import BaselineTier.Proofs.Encoding
import BaselineTier.Proofs.Frames
import BaselineTier.Proofs.Heights
import BaselineTier.Proofs.Histories
import BaselineTier.Proofs.Interning
import BaselineTier.Proofs.Kinds
import BaselineTier.Proofs.KnownNames
import BaselineTier.Proofs.KnownTypes
import BaselineTier.Proofs.Lowering
import BaselineTier.Proofs.Naming
import BaselineTier.Proofs.Nesting
import BaselineTier.Proofs.Numbering
import BaselineTier.Proofs.Operators
import BaselineTier.Proofs.Properties
import BaselineTier.Proofs.Reachability
import BaselineTier.Proofs.Recording
import BaselineTier.Proofs.Running
import BaselineTier.Proofs.Safety
import BaselineTier.Proofs.Shuffle
import BaselineTier.Proofs.Simulation
import BaselineTier.Proofs.StackEffects
import BaselineTier.Proofs.Stubs
import BaselineTier.Proofs.Texts
import BaselineTier.Proofs.Tiling
import BaselineTier.Proofs.Transparency
import BaselineTier.Proofs.Unreachable
import BaselineTier.Proofs.Verified
import BaselineTier.Proofs.View
import BaselineTier.Proofs.VirtualStack
import BaselineTier.Proofs.WholeNumbers
import BaselineTier.Proofs.Writing
import BaselineTier.Realm
import BaselineTier.RunError
import BaselineTier.Script
import BaselineTier.Semantics.Conversion
import BaselineTier.Semantics.Operators
import BaselineTier.Settings.Basic
import BaselineTier.Settings.Toml
import BaselineTier.StackMap
import BaselineTier.Text.Blank
import BaselineTier.Text.Combining
import BaselineTier.Text.Quoted
import BaselineTier.Text.Unprintable
import BaselineTier.Tier
import BaselineTier.Value
import BaselineTier.VirtualStack.Basic
import BaselineTier.VirtualStack.Entry
import BaselineTier.Workspace
