/-
Object code as records. The code of a module is a header, its words in runs that follow one another
in memory, and notes for the linker: which words move with the module, which names it offers, and
which fields another module has to fill.
-/
import Sigma16.Value

namespace Sigma16

/-- A field that takes the value of another module's symbol. -/
structure Import where
  moduleName : Text
  foreignName : Text
  address : Word
  /-- The name of the field. -/
  field : Text
  deriving DecidableEq, Repr

/-- A name that other modules may import, with its value. -/
structure Export where
  name : Text
  value : Value
  deriving DecidableEq, Repr

inductive Record where
  /-- The header with the module's name. -/
  | header (moduleName : Text)
  /-- Words that follow one another. -/
  | data (words : List Word)
  /-- The address of the next word. -/
  | org (address : Word)
  /-- Addresses of words that move with the module. -/
  | relocate (addresses : List Word)
  | exported (item : Export)
  | imported (item : Import)
  deriving DecidableEq, Repr

namespace Record

def text : Record → Text
  | .header moduleName => "module   " ++ moduleName
  | .data words => "data     " ++ Word.hexList words
  | .org address => "org      " ++ address.hex
  | .relocate addresses => "relocate " ++ Word.hexList addresses
  | .exported item =>
    "export   " ++ item.name ++ "," ++ item.value.word.hex ++ ","
      ++ (if item.value.isRelocatable then "relocatable" else "fixed")
  | .imported item =>
    "import   " ++ item.moduleName ++ "," ++ item.foreignName ++ "," ++ item.address.hex ++ ","
      ++ item.field

/-- A record holds at most this many words. -/
def itemsPerRecord : Nat := 8

/-- Words that follow one another, as records. -/
def ofWords (words : List Word) : List Record := (chunks itemsPerRecord words).map .data

/-- Addresses of words that move, as records. -/
def ofRelocations (addresses : List Word) : List Record :=
  (chunks itemsPerRecord addresses).map .relocate

/-- The code of statements in order. A statement contributes words, and may move to another address,
which starts a new record; `pending` are the words not yet written. -/
def ofCode : List Word → List (Option Word × List Word) → List Record
  | pending, [] => ofWords pending
  | pending, (none, words) :: rest => ofCode (pending ++ words) rest
  | pending, (some address, words) :: rest => ofWords pending ++ .org address :: ofCode words rest

end Record

end Sigma16
