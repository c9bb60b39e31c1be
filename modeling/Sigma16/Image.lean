/-
The memory image of a module: which word stands at which address, and which line put it there.
-/
import Std.Data.TreeMap
import Sigma16.Word

namespace Sigma16

/-- A word in memory and the line of the statement that it belongs to. -/
structure Cell where
  word : Word
  line : Int
  deriving DecidableEq, Repr

/-- The cells that are filled, by address. -/
abbrev Image := Std.TreeMap Word Cell

namespace Image

/-- Writes words to an address and those after it; addresses wrap around, and the last write to an
address stays. -/
def storeAll (image : Image) (address : Word) (line : Int) : List Word → Image
  | [] => image
  | word :: words => storeAll (image.insert address ⟨word, line⟩) (address + 1) line words

/-- Addresses and words by increasing address. -/
def memory (image : Image) : List (Word × Word) := image.toList.map fun (address, cell) => (address, cell.word)

end Image

end Sigma16
