/-
How a diagnostic is shown to the user: its message, the source line, and a mark under the place.
-/
import Sigma16.Diagnostic

namespace Sigma16.Report

/-- Terminal codes around a text. -/
def styled (code : String) (text : Text) : Text :=
  "\x1b[" ++ Text.ofString code ++ "m" ++ text ++ "\x1b[0m"

/-- What starts an entry of the log: a name, in bold where colour is wanted. -/
def heading (name : Text) (color : Bool) : Text := if color then styled "1" name else name

/-- A mark under a place of a line; it starts at most one column after the line's end and is at least
one character long. -/
def underline (position : Cursor) (source : Text) : Text :=
  let column := min (max position.column 1) (Text.width source + 1)
  List.replicate (column - 1).toNat ' '.toUInt8 ++ "^" ++ List.replicate (position.size - 1).toNat '~'.toUInt8

/-- Message, source line and mark. -/
def diagnostic (e : Diagnostic) (source : Text) (color : Bool) : Text :=
  let mark := underline e.position source
  e.message ++ "\n" ++ source ++ "\n" ++ (if color then styled "31" mark else mark)

end Sigma16.Report
