/-
Diagnostics: what is wrong with a statement, and where. A diagnostic is a place in the source and a
cause; kind and wording follow from the cause.
-/
import Sigma16.Operation
import Sigma16.Value

namespace Sigma16

/-- A place in the source: line and column count from 1, the size is in characters. -/
structure Cursor where
  line : Int
  column : Int
  size : Int
  deriving DecidableEq, Repr

/-- The stage of understanding that fails. -/
inductive DiagnosticKind where
  /-- A character that no source may hold. -/
  | lexical
  /-- A part of a statement that has the wrong form. -/
  | syntactic
  /-- A statement that is well formed and means nothing. -/
  | semantic
  /-- A fault of the assembler itself. -/
  | internal
  /-- A tag that means none of them. -/
  | other
  deriving DecidableEq, Repr

def DiagnosticKind.name : DiagnosticKind → Text
  | .lexical => "lexical"
  | .syntactic => "syntax"
  | .semantic => "semantic"
  | .internal => "internal"
  | .other => "<invalid>"

inductive Cause where
  | invalidCharacters (columns : List Int)
  /-- Advice that follows a report of invalid characters. -/
  | characterNote (note : Text)
  | invalidLabel (label : Text)
  | missingLabel (mnemonic : Text)
  | unknownOperation (mnemonic : Text)
  | invalidOperand (required received : Text)
  | invalidExpression (text : Text)
  | invalidLiteral (text : Text)
  | operandCount (required received : Int)
  /-- A name that is bound already, and the line that binds it. -/
  | redeclaredSymbol (name : Text) (line : Int)
  | undefinedSymbol (name : Text)
  | arithmetic (fault : ArithmeticFault)
  | unknownControlRegister (name : Text)
  | undefinedExport (name : Text)
  /-- The size of a block that moves with the module. -/
  | movingBlock (value : Value)
  /-- A value that moves with the module, in a field too small to be patched. -/
  | movingField (field : Text) (value : Value)
  | oversizedField (field : Text) (limit value : Word)
  | unhandledFormat (format : InstructionFormat) (operands : AddressingFormat) (pseudo : Bool)
  | internal (message : Text)
  deriving DecidableEq, Repr

namespace Cause

def kind : Cause → DiagnosticKind
  | .invalidCharacters _ | .characterNote _ => .lexical
  | .invalidLabel _ | .missingLabel _ | .unknownOperation _ | .invalidOperand _ _
  | .invalidExpression _ | .invalidLiteral _ | .operandCount _ _ => .syntactic
  | .redeclaredSymbol _ _ | .undefinedSymbol _ | .unknownControlRegister _ | .undefinedExport _
  | .movingBlock _ | .movingField _ _ | .oversizedField _ _ _ => .semantic
  | .arithmetic fault => if fault = .negative then .internal else .semantic
  | .unhandledFormat _ _ _ | .internal _ => .internal

/-- The lines on what was wanted and what was found. -/
def wantHave (wanted found : Text) : Text := "\n\twant:" ++ wanted ++ "\n\thave:" ++ found

def message : Cause → Text
  | .invalidCharacters columns => "Invalid character at position " ++ Text.decimals columns
  | .characterNote note => note
  | .invalidLabel label => "'" ++ label ++ "' is not a valid label"
  | .missingLabel mnemonic => "'" ++ mnemonic ++ "' requires a label"
  | .unknownOperation mnemonic => "Unknown operation '" ++ mnemonic ++ "'"
  | .invalidOperand required received => "Invalid operand" ++ wantHave required received
  | .invalidExpression text => "Expression '" ++ text ++ "' has invalid syntax"
  | .invalidLiteral text => "Invalid numeric literal '" ++ text ++ "'"
  | .operandCount required received =>
    "Invalid number of arguments" ++ wantHave (Text.decimal required) (Text.decimal received)
  | .redeclaredSymbol name line =>
    "'" ++ name ++ "' has already been defined on line " ++ Text.decimal line
  | .undefinedSymbol name => "Symbol '" ++ name ++ "' is not defined"
  | .arithmetic fault => fault.message
  | .unknownControlRegister name => "'" ++ name ++ "' is not a valid control register"
  | .undefinedExport name => "Export identifier '" ++ name ++ "' is undefined"
  | .movingBlock value => "Operand for block must be Fixed\n\thave:" ++ value.text
  | .movingField field value =>
    "Field " ++ field ++ " requires a fixed value\n\thave:" ++ value.text
  | .oversizedField field limit value =>
    "Field " ++ field ++ " exceeds allowed size"
      ++ wantHave (Text.natural limit.toNat) (Text.natural value.toNat)
  | .unhandledFormat format operands pseudo =>
    "Internal error, no encoding for " ++ format.name ++ "/" ++ operands.name
      ++ " (pseudo=" ++ (if pseudo then "true" else "false") ++ ")"
  | .internal message => "Internal error, " ++ message

end Cause

structure Diagnostic where
  position : Cursor
  cause : Cause
  deriving DecidableEq, Repr

namespace Diagnostic

def kind (e : Diagnostic) : DiagnosticKind := e.cause.kind

/-- Line, column and wording, such as `02:11: Unknown operation 'foo'`. -/
def message (e : Diagnostic) : Text :=
  Text.twoPlaces e.position.line ++ ":" ++ Text.twoPlaces e.position.column ++ ": " ++ e.cause.message

end Diagnostic

end Sigma16
