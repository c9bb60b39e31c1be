/-
Values of expressions: a word together with where it comes from and whether it moves with the
module. Sums are partial: a word that another module supplies cannot be calculated with, and two
addresses that both move have no sum that moves by the same amount.
-/
import Sigma16.Word

namespace Sigma16

/-- Where a value comes from. -/
inductive Origin where
  /-- This module. -/
  | loc
  /-- Another module; the linker supplies the word. -/
  | ext
  /-- A tag that means neither. -/
  | other
  deriving DecidableEq, Repr

/-- Whether a value changes when the module is moved. -/
inductive Movability where
  /-- It stays the same. -/
  | fix
  /-- It moves by as much as the module. -/
  | rel
  /-- A tag that means neither. -/
  | other
  deriving DecidableEq, Repr

def Origin.name : Origin → Text
  | .loc => "Loc"
  | .ext => "Ext"
  | .other => "<invalid>"

def Movability.name : Movability → Text
  | .fix => "Fix"
  | .rel => "Rel"
  | .other => "<invalid>"

structure Value where
  word : Word
  origin : Origin
  movability : Movability
  deriving DecidableEq, Repr

/-- Why two values have no sum, or a number is no word. -/
inductive ArithmeticFault where
  | external
  | relocatableSum
  | negative
  deriving DecidableEq, Repr

def ArithmeticFault.message : ArithmeticFault → Text
  | .external => "Cannot perform arithmetic on external value"
  | .relocatableSum => "Cannot add two relocatable values"
  | .negative => "Negative word clamped to 0"

namespace Value

/-- A word of this module that does not move. -/
def const (w : Word) : Value := ⟨w, .loc, .fix⟩

/-- A word of this module that moves with it. -/
def relocatable (w : Word) : Value := ⟨w, .loc, .rel⟩

/-- The placeholder for a word that another module supplies. -/
def external : Value := ⟨0, .ext, .fix⟩

def isExternal (v : Value) : Bool := v.origin == .ext

def isRelocatable (v : Value) : Bool := v.movability == .rel

/-- A value in listings, such as `001f Loc Fix`. -/
def text (v : Value) : Text := v.word.hex ++ " " ++ v.origin.name ++ " " ++ v.movability.name

/-- A natural number modulo the number of words. -/
def wrap (n : Int) : Except ArithmeticFault Word :=
  if n < 0 then .error .negative else .ok (.ofNat n.toNat)

/-- The sum of two values of this module, of which at most one moves. -/
def add (x y : Value) : Except ArithmeticFault Value :=
  if x.isExternal || y.isExternal then .error .external
  else if x.isRelocatable && y.isRelocatable then .error .relocatableSum
  else
    (wrap (x.word.toNat + y.word.toNat)).map fun word =>
      ⟨word, .loc, if x.isRelocatable || y.isRelocatable then .rel else .fix⟩

/-- The sum to go on with, beside the fault to report: values that have no sum count as zero. -/
def addOrZero (x y : Value) : Value × Option ArithmeticFault :=
  match x.add y with
  | .ok sum => (sum, none)
  | .error fault => (.const 0, some fault)

end Value

end Sigma16
