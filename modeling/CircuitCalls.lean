import CircuitCalls.Number.Layout
import CircuitCalls.Number.Reader
import CircuitCalls.Json.Writer
import CircuitCalls.Json.Record
import CircuitCalls.Parameter.Text
import CircuitCalls.Parameter.Json
import CircuitCalls.Gate.Roles
import CircuitCalls.Gate.Json
import CircuitCalls.Circuit.Build
import CircuitCalls.Circuit.Json
import CircuitCalls.Numbering
import CircuitCalls.Call.Text
import CircuitCalls.Call.Json
import CircuitCalls.Emission
import CircuitCalls.Qasm.Elaboration
import CircuitCalls.Command.Run
import CircuitCalls.Main
import CircuitCalls.Proofs.Numbering
import CircuitCalls.Proofs.Emission
import CircuitCalls.Proofs.Execution
import CircuitCalls.Proofs.Simulation
import CircuitCalls.Proofs.Compilability
import CircuitCalls.Proofs.LoopVariables
import CircuitCalls.Proofs.Representation
import CircuitCalls.Proofs.Nesting
import CircuitCalls.Proofs.Paths
import CircuitCalls.Proofs.FirstFault
import CircuitCalls.Proofs.Renumbering
import CircuitCalls.Proofs.Roles
import CircuitCalls.Proofs.Indices
import CircuitCalls.Proofs.Building
import CircuitCalls.Proofs.LoadedRegisters
import CircuitCalls.Proofs.Modifiers
import CircuitCalls.Proofs.JsonText
import CircuitCalls.Proofs.JsonReading
import CircuitCalls.Proofs.GateJson
import CircuitCalls.Proofs.CircuitJson
import CircuitCalls.Proofs.ProgramJson
import CircuitCalls.Proofs.ExpressionTokens
import CircuitCalls.Proofs.TokenText
import CircuitCalls.Proofs.StatementTokens
import CircuitCalls.Proofs.CallText
import CircuitCalls.Proofs.ProgramText
import CircuitCalls.Proofs.Completion
import CircuitCalls.Proofs.FileTree
import CircuitCalls.Proofs.Batch
import CircuitCalls.Proofs.NestedControls
import CircuitCalls.Proofs.Violations
import CircuitCalls.Proofs.Precedence
import CircuitCalls.Proofs.LoopRanges
import CircuitCalls.Proofs.Conditions
import CircuitCalls.Proofs.Shorthand
import CircuitCalls.Proofs.Simplification
import CircuitCalls.Proofs.Constants
import CircuitCalls.Proofs.NumberOrder
import CircuitCalls.Proofs.KeptStatements
import CircuitCalls.Proofs.FreshNames
import CircuitCalls.Proofs.ParserProgress
import CircuitCalls.Proofs.ParserLoops
import CircuitCalls.Proofs.ControlMarks
import CircuitCalls.Proofs.Inspection
import CircuitCalls.Proofs.Lexemes
