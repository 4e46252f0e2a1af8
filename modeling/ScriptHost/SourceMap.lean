import ScriptHost.SourceText
import ScriptHost.SourceMap.Vlq
import ScriptHost.Text.Escaped

/-! Source maps of outputs that hold their sources unchanged, line for line. -/

namespace ScriptHost

/-- A source map as it was written. -/
structure SourceMap where
  outputFile : String
  mapFile : String
  json : String
  deriving DecidableEq, Repr

namespace SourceMap

/-- Where a generated line comes from: a source by its index, and a line of it. -/
structure Origin where
  source : Nat
  line : Nat
  deriving DecidableEq, Repr

/-- The origins of the lines of texts that stand one after another, the first with an index. -/
def originsFrom (index : Nat) : List (List Char) → List Origin
  | [] => []
  | text :: texts =>
    (List.range (Text.lines text).length).map (Origin.mk index) ++ originsFrom (index + 1) texts

/-- The segment of a line: its column, and how its source, line and column differ from those of
the segment before it. -/
def segment (previous origin : Origin) : List Char :=
  Vlq.encodeAll [0, (origin.source : Int) - previous.source, (origin.line : Int) - previous.line, 0]

/-- The segments of lines after a previous one. -/
def segments (previous : Origin) : List Origin → List (List Char)
  | [] => []
  | origin :: origins => segment previous origin :: segments origin origins

/-- The mappings of texts that stand one after another. -/
def mappings (texts : List (List Char)) : List Char :=
  [';'].intercalate (segments ⟨0, 0⟩ (originsFrom 0 texts))

/-- The text of the map of an output that holds sources one after another. -/
def render (output : String) (sources : List SourceText) : String :=
  let mapped := String.ofList (mappings (sources.map (·.text.toList)))
  "\x7b\"file\":" ++ Text.jsonString (FileName.base output) ++
    ",\"mappings\":" ++ Text.jsonString mapped ++
    ",\"names\":[],\"sourceRoot\":\"\",\"sources\":" ++
    Text.jsonArray (sources.map (Text.jsonString ·.name)) ++
    ",\"version\":3\x7d"

end SourceMap

end ScriptHost
