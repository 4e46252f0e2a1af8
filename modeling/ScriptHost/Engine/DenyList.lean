import ScriptHost.Engine.Verbatim
import ScriptHost.Text.Alphanumeric

/-! An engine with one rule of meaning: names on a list are unknown wherever they stand as words. -/

namespace ScriptHost.DenyList

def isNameChar (c : Char) : Bool := Text.isAlphanumeric c || c == '_' || c == '$'

/-- The offsets of a word in text, from left to right and without overlap, where the word stands
alone. The text begins at a byte offset, and `before` is the character in front of it; `skip`
characters of the text belong to a word that was found already. -/
def usesFrom (word : List Char) : (skip offset : Nat) → (before : Option Char) → List Char →
    List Nat
  | _, offset, before, [] => if word.isEmpty && !before.any isNameChar then [offset] else []
  | skip + 1, offset, _, c :: cs => usesFrom word skip (offset + c.utf8Size) (some c) cs
  | 0, offset, before, c :: cs =>
    match word.isPrefixOf? (c :: cs) with
    | some rest =>
      let here := if before.any isNameChar || rest.head?.any isNameChar then [] else [offset]
      here ++ usesFrom word (word.length - 1) (offset + c.utf8Size) (some c) cs
    | none => usesFrom word 0 (offset + c.utf8Size) (some c) cs

/-- The uses of a name in a source. -/
def uses (source : SourceText) (name : String) : List Diagnostic :=
  (usesFrom name.toList 0 0 none source.text.toList).map fun start =>
    (Diagnostic.error 2304 ("Cannot find name '" ++ name ++ "'.")).locate source start
      (Text.byteLength name.toList)

/-- The uses of all names in a source, in the order of their places and then of the list. -/
def inSource (names : List String) (source : SourceText) : List Diagnostic :=
  (names.flatMap (uses source)).mergeSort fun a b => a.start ≤ b.start

/-- The uses of all names in the sources of a program that are no declarations. -/
def inProgram (names : List String) (sources : List SourceText) : List Diagnostic :=
  (sources.filter (!·.isDeclaration)).flatMap (inSource names)

end ScriptHost.DenyList

namespace ScriptHost.Engine

/-- The engine that reports names on a list in a full check. -/
def denyList (names : List String) : Engine :=
  verbatim.refine fun program =>
    { program with
      checker := fun full =>
        { program.checker full with
          semantic := if full then DenyList.inProgram names program.sources else [] } }

end ScriptHost.Engine
