import ScriptHost.FileName
import ScriptHost.Text.Lines

/-! Source texts and the line and column of an offset in one. -/

namespace ScriptHost

/-- A source as an engine saw it. -/
structure SourceText where
  name : String
  text : String
  deriving DecidableEq, Repr

namespace SourceText

def isDeclaration (source : SourceText) : Bool := FileName.isDeclaration source.name

/-- The number of bytes of the text. -/
def size (source : SourceText) : Nat := Text.byteLength source.text.toList

/-- The line and the column of a byte offset, both counted from one. Offsets beyond the end stand
for the end. A column counts UTF-16 code units, and bytes inside a character. -/
def lineAndColumn (source : SourceText) (offset : Nat) : Nat × Nat :=
  let cs := source.text.toList
  let offset := min offset (Text.byteLength cs)
  let begun := (Text.lineStarts cs).filter (· ≤ offset)
  let start := begun.getLast?.getD 0
  let units := (Text.charsFrom? cs start).bind (Text.unitsBefore? · (offset - start))
  (begun.length, units.getD (offset - start) + 1)

end SourceText

end ScriptHost
