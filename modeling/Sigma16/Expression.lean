/-
Expressions of operands: a term, or the sum of two. A term is a name, a decimal or a word in
hexadecimal. An expression keeps the text of its terms, which diagnostics quote.
-/
import Sigma16.Line

namespace Sigma16

namespace Text

/-- Digits, possibly after a minus sign. -/
def isDecimal (t : Text) : Bool :=
  let body := if t.head? == some '-'.toUInt8 then t.tail else t
  !body.isEmpty && body.all isDigit

/-- A dollar sign and four hexadecimal digits. -/
def isHexWord (t : Text) : Bool :=
  t.head? == some '$'.toUInt8 && t.tail.length == 4 && t.tail.all isHexDigit

def isTerm (t : Text) : Bool := isName t || isDecimal t || isHexWord t

end Text

/-- A term by its form. Texts that are neither names nor decimals are taken for hexadecimal. -/
inductive Term where
  | name (text : Text)
  | decimal (text : Text)
  | hex (text : Text)
  deriving DecidableEq, Repr

def Term.ofText (t : Text) : Term :=
  if Text.isName t then .name t else if Text.isDecimal t then .decimal t else .hex t

inductive Expression where
  | term (text : Text)
  | sum (left right : Text)
  deriving DecidableEq, Repr

/-- The expression of a text, if it has the form of one. -/
def Expression.ofText? (t : Text) : Option Expression :=
  if Text.isTerm t then some (.term t)
  else
    match Text.cut? '+'.toUInt8 t with
    | some (left, right) => if Text.isTerm left && Text.isTerm right then some (.sum left right) else none
    | none => none

end Sigma16
