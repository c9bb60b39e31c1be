/-
Metadata for debuggers: the line behind every address, and the listing in both of its forms.
-/
import Sigma16.Listing

namespace Sigma16

namespace Metadata

/-- A line of the address map holds at most this many items. -/
def itemsPerLine : Nat := 10

/-- An address and the line that filled it. -/
def mapItem (address : Word) (line : Int) : Text := address.hex ++ ":" ++ Text.decimal line

end Metadata

namespace Assembly

open Metadata

/-- The line behind every filled address, by increasing address. -/
def addressMap (a : Assembly) : List (Word × Int) :=
  a.image.toList.map fun (address, cell) => (address, cell.line)

def metadataLines (a : Assembly) : List Text :=
  ("asmap " ++ Text.natural a.addressMap.length)
    :: (chunks itemsPerLine a.addressMap).map (fun items =>
      Text.join "," (items.map fun (address, line) => mapItem address line))
  ++ ("source " ++ Text.natural a.listing.length)
    :: a.listing.flatMap fun l => [l.plain, l.annotated]

def metadataText (a : Assembly) : Text := Text.ofLines a.metadataLines

end Assembly

end Sigma16
