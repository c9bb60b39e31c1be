/-
Listings: the source beside its addresses and code, with the diagnostics below the lines they belong
to, and the symbol table. A listing has two forms, plain and with markup, line for line.
-/
import Sigma16.Assembly

namespace Sigma16

/-- A line of a listing in both of its forms. -/
structure ListingLine where
  plain : Text
  annotated : Text
  deriving DecidableEq, Repr

namespace Listing

/-! ## Markup -/

/-- A text inside a span of a class. -/
def highlight (className : String) (text : Text) : Text :=
  "<span class='" ++ Text.ofString className ++ "'>" ++ text ++ "</span>"

/-- A text in which nothing can be taken for a tag. -/
def escapeMarkup (t : Text) : Text :=
  t.flatMap fun b => if b == '<'.toUInt8 then "&lt;" else [b]

/-- A line that is all of one class. -/
def lineOf (className : String) (text : Text) : ListingLine := ⟨text, highlight className text⟩

/-- A line without markup. -/
def plainLine (text : Text) : ListingLine := ⟨text, text⟩

/-! ## Statements -/

/-- A message on one line: what follows a tab at the start of a line is appended with a space. -/
def oneLine : Text → Text
  | [] => []
  | 0x0A :: 0x09 :: s => ' '.toUInt8 :: oneLine s
  | b :: s => b :: oneLine s

def errorText (e : Diagnostic) : Text := "Error: " ++ oneLine e.message

def errorLine (e : Diagnostic) : ListingLine :=
  ⟨errorText e, highlight "ERR" (escapeMarkup (errorText e))⟩

/-- A code word of a statement, or blanks. -/
def codeColumn (s : Statement) (n : Nat) : Text :=
  match s.code[n]? with
  | some w => w.hex
  | none => "    "

/-- Line number, address and code; a dot marks an address that does not move. -/
def margin (s : Statement) : Text :=
  Text.padLeft ' ' 4 (Text.decimal s.line) ++ " " ++ s.address.word.hex
    ++ (if s.address.isRelocatable then " " else ".") ++ " "
    ++ codeColumn s 0 ++ " " ++ codeColumn s 1 ++ " "

/-- The source of a statement beside its address and code. -/
def sourceLine (s : Statement) : ListingLine where
  plain := margin s ++ s.parts.text
  annotated :=
    margin s ++ highlight "FIELDLABEL" s.parts.label ++ s.parts.labelGap
      ++ highlight "FIELDOPERATION" s.parts.mnemonic ++ s.parts.mnemonicGap
      ++ highlight "FIELDOPERAND" s.parts.operands
      ++ highlight "FIELDCOMMENT" (escapeMarkup s.parts.comment)

/-- A statement and its diagnostics. -/
def statementLines (s : Statement) : List ListingLine := sourceLine s :: s.errors.map errorLine

/-! ## The symbol table -/

def symbolHeader : Text := "Name        Val Org Mov  Def Used"

def symbolRow (b : Binding) : Text :=
  Text.padRight 11 b.fullName ++ b.value.text ++ Text.padLeft ' ' 5 (Text.decimal b.line) ++ "  "
    ++ Text.decimals b.uses

end Listing

namespace Assembly

open Listing

/-- The symbol table by name, as text. -/
def symbolListing (a : Assembly) : Text := Text.ofLines (symbolHeader :: a.symbols.sorted.map symbolRow)

/-- The number of errors if there are any, the statements, and the symbol table. -/
def listing (a : Assembly) : List ListingLine :=
  (if a.errorCount = 0 then []
    else [lineOf "ERR" (" " ++ Text.natural a.errorCount ++ " errors detected")])
  ++ lineOf "ListingHeader" "Line Addr Code Code Source" :: a.statements.flatMap statementLines
  ++ [plainLine [], lineOf "ListingHeader" "Symbol table", lineOf "ListingHeader" symbolHeader]
  ++ a.symbols.sorted.map fun b => plainLine (symbolRow b)

def listingText (a : Assembly) : Text := Text.ofLines (a.listing.map (·.plain))

def annotatedListing (a : Assembly) : Text := Text.ofLines (a.listing.map (·.annotated))

end Assembly

end Sigma16
