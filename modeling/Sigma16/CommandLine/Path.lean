/-
Paths of files: names with slashes between them. The outputs of a module are named after its source.
-/
import Sigma16.Text.Basic

namespace Sigma16.Path

/-- The part after the last slash. -/
def lastPart (p : Text) : Text := (p.reverse.takeWhile (· != '/'.toUInt8)).reverse

/-- The last name of a path, slashes at the end left aside. -/
def baseName (p : Text) : Text :=
  if p.isEmpty then "."
  else
    let trimmed := (p.reverse.dropWhile (· == '/'.toUInt8)).reverse
    if trimmed.isEmpty then "/" else lastPart trimmed

/-- The extension: the last dot of the last part and what follows. -/
def extension (p : Text) : Text :=
  let name := lastPart p
  if name.contains '.'.toUInt8 then
    '.'.toUInt8 :: (name.reverse.takeWhile (· != '.'.toUInt8)).reverse
  else []

/-- The extension of sources. -/
def sourceSuffix : Text := ".asm.txt"

/-- A path without the extension of sources, or without its extension if it has another one. -/
def stem (p : Text) : Text :=
  let suffix := if sourceSuffix.isSuffixOf p then sourceSuffix else extension p
  p.take (p.length - suffix.length)

end Sigma16.Path
