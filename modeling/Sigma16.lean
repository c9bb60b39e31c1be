import Sigma16.Assembly
import Sigma16.Code
import Sigma16.CommandLine.FileTree
import Sigma16.CommandLine.Host
import Sigma16.CommandLine.Options
import Sigma16.CommandLine.Path
import Sigma16.CommandLine.Run
import Sigma16.Diagnostic
import Sigma16.Expression
import Sigma16.Field
import Sigma16.Image
import Sigma16.Layout
import Sigma16.Line
import Sigma16.Listing
import Sigma16.Literal
import Sigma16.Main
import Sigma16.Metadata
import Sigma16.Module
import Sigma16.Object
import Sigma16.Operand
import Sigma16.Operation
import Sigma16.Operation.Shape
import Sigma16.Operation.Table
import Sigma16.Outcome
import Sigma16.Proofs.Binding
import Sigma16.Proofs.Effects
import Sigma16.Proofs.Evaluation
import Sigma16.Proofs.Operation
import Sigma16.Report
import Sigma16.Session
import Sigma16.Statement
import Sigma16.Symbol
import Sigma16.Text.Basic
import Sigma16.Text.Number
import Sigma16.Text.Printable
import Sigma16.Text.Quoted
import Sigma16.Text.Rune
import Sigma16.Value
import Sigma16.Word
import Sigma16.Proofs.Layout
import Sigma16.Proofs.Code
import Sigma16.Proofs.Phase
import Sigma16.Proofs.Fault
import Sigma16.Proofs.Object
import Sigma16.Proofs.Loading
import Sigma16.Proofs.Rebase
import Sigma16.Proofs.Relocation
import Sigma16.Proofs.Denotation
import Sigma16.Proofs.Persistence
import Sigma16.Proofs.Packing
import Sigma16.Proofs.Decoding
import Sigma16.Proofs.ObjectFile
import Sigma16.Proofs.Renumbering
import Sigma16.Proofs.Spacing
import Sigma16.Proofs.Line
import Sigma16.Proofs.Rune
import Sigma16.Proofs.Replacement
import Sigma16.Proofs.Expansion
import Sigma16.Proofs.Linking
import Sigma16.Proofs.Diagnosis
import Sigma16.Proofs.Position
import Sigma16.Proofs.Listing
import Sigma16.Proofs.Literal
import Sigma16.Proofs.MetadataFile
import Sigma16.Proofs.Log
import Sigma16.Proofs.Definition
import Sigma16.Proofs.Alias
import Sigma16.Proofs.Transcript
import Sigma16.Proofs.System
import Sigma16.Proofs.FileTree
import Sigma16.Proofs.Report
import Sigma16.Proofs.Run
import Sigma16.Proofs.Grammar
import Sigma16.Proofs.Jump
import Sigma16.Proofs.OperandPosition
import Sigma16.Proofs.OutputPath
import Sigma16.Proofs.Numeral
import Sigma16.Proofs.Export
import Sigma16.Proofs.Markup
import Sigma16.Proofs.Splitting
import Sigma16.Proofs.SymbolRow
import Sigma16.Proofs.WriteOnce
import Sigma16.Proofs.Usage
import Sigma16.Proofs.Sum
