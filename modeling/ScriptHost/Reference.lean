import ScriptHost.Text.Blank
import ScriptHost.Text.Lines

/-! Reference directives: the lines `/// <reference path="…" />` before the first line of code. -/

namespace ScriptHost

/-- A directive that names another source, and the bytes that it takes up. -/
structure Reference where
  path : String
  start : Nat
  length : Nat
  deriving DecidableEq, Repr

namespace Reference

/-- What follows the first occurrence of a word. -/
def after? (word : List Char) : List Char → Option (List Char)
  | [] => if word.isEmpty then some [] else none
  | c :: cs =>
    match word.isPrefixOf? (c :: cs) with
    | some rest => some rest
    | none => after? word cs

/-- What stands between the quote at the beginning and the next quote of its kind. -/
def quoted? : List Char → Option (List Char)
  | [] => none
  | quote :: cs =>
    if (quote = '"' ∨ quote = '\'') ∧ quote ∈ cs then some (cs.takeWhile (· != quote)) else none

/-- The path in a directive, read from behind its three slashes. -/
def path? (cs : List Char) : Option (List Char) := do
  let tag ← "<reference".toList.isPrefixOf? (Text.trimStart cs)
  let named ← after? "path".toList tag
  let value ← ['='].isPrefixOf? (Text.trimStart named)
  quoted? (Text.trimStart value)

/-- The reference in a line that begins at a byte offset. -/
def inLine? (offset : Nat) (line : List Char) : Option Reference := do
  let trimmed := Text.trimStart line
  let rest ← ['/', '/', '/'].isPrefixOf? trimmed
  let path ← path? rest
  return {
    path := String.ofList path
    start := offset + (Text.byteLength line - Text.byteLength trimmed)
    length := Text.byteLength (Text.trimEnd trimmed)
  }

/-- Whether a line may stand among directives: it is blank or a comment to its end. -/
def isHeader (line : List Char) : Bool :=
  let trimmed := Text.trimStart line
  trimmed.isEmpty || ['/', '/'].isPrefixOf trimmed

/-- The references in lines of which the first begins at a byte offset. -/
def inLines (offset : Nat) : List (List Char) → List Reference
  | [] => []
  | line :: lines =>
    if isHeader line then
      (inLine? offset line).toList ++ inLines (offset + Text.byteLength line) lines
    else []

def ofText (text : String) : List Reference := inLines 0 (Text.lines text.toList)

end Reference

end ScriptHost
