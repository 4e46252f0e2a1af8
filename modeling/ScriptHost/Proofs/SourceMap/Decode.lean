import ScriptHost.Proofs.SourceMap.Vlq
import ScriptHost.SourceMap

/-! Decoding of mappings into the positions that their segments stand for. -/

namespace ScriptHost.SourceMap

/-- What a segment says: a column of its generated line comes from a place in a source. -/
structure Position where
  generated : Int
  source : Int
  line : Int
  column : Int
  deriving DecidableEq, Repr

variable {previous : Origin} {origins : List Origin} {texts : List (List Char)} {index : Nat}

/-- The position that differs from a previous one by the fields of a segment. -/
def Position.advance? (previous : Position) : List Int → Option Position
  | [generated, source, line, column] =>
    some ⟨previous.generated + generated, previous.source + source, previous.line + line,
      previous.column + column⟩
  | _ => none

/-- The positions of segments that stand one after another. -/
def segmentsFrom? (previous : Position) : List (List Char) → Option (List Position)
  | [] => some []
  | segment :: segments =>
    ((Vlq.decode? segment).bind previous.advance?).bind fun position =>
      (segmentsFrom? position segments).map (position :: ·)

/-- The positions of the segments of a line. An empty line has none. -/
def lineFrom? (previous : Position) (line : List Char) : Option (List Position) :=
  if line = [] then some []
  else segmentsFrom? { previous with generated := 0 } (line.splitOn ',')

/-- The positions of lines. A column counts from the start of its line, and the other parts go on
from the last segment before. -/
def linesFrom? (previous : Position) : List (List Char) → Option (List (List Position))
  | [] => some []
  | line :: lines =>
    (lineFrom? previous line).bind fun positions =>
      (linesFrom? (positions.getLastD previous) lines).map (positions :: ·)

/-- The positions of mappings, line for line. -/
def decode? (mappings : List Char) : Option (List (List Position)) :=
  linesFrom? ⟨0, 0, 0, 0⟩ (mappings.splitOn ';')

/-- The position of the start of a generated line. -/
def Origin.position (origin : Origin) : Position := ⟨0, origin.source, origin.line, 0⟩

theorem comma_not_mem_segment (previous origin : Origin) : ',' ∉ segment previous origin :=
  Vlq.not_mem_encodeAll_of_not_mem (by decide)

theorem semicolon_not_mem_segment (previous origin : Origin) : ';' ∉ segment previous origin :=
  Vlq.not_mem_encodeAll_of_not_mem (by decide)

theorem semicolon_not_mem_segments {line : List Char} (h : line ∈ segments previous origins) :
    ';' ∉ line := by
  induction origins generalizing previous with
  | nil => simp [segments] at h
  | cons origin origins ih =>
    rcases List.mem_cons.1 h with rfl | h
    · exact semicolon_not_mem_segment previous origin
    · exact ih h

theorem segments_eq_nil : segments previous origins = [] ↔ origins = [] := by
  cases origins <;> simp [segments]

theorem lineFrom?_segment (previous origin : Origin) (generated : Int) :
    lineFrom? { previous.position with generated := generated } (segment previous origin) =
      some [origin.position] := by
  have hn : segment previous origin ≠ [] := Vlq.encodeAll_ne_nil _ _
  have hs : (segment previous origin).splitOn ',' = [segment previous origin] :=
    List.splitOn_eq_singleton (comma_not_mem_segment previous origin)
  have hd : Vlq.decode? (segment previous origin) =
      some [0, (origin.source : Int) - previous.source, (origin.line : Int) - previous.line, 0] :=
    Vlq.decode?_encodeAll _
  rw [lineFrom?, if_neg hn, hs]
  simp [segmentsFrom?, hd, Position.advance?, Origin.position]

theorem linesFrom?_segments (previous : Origin) (origins : List Origin) :
    linesFrom? previous.position (segments previous origins) =
      some (origins.map ([·.position])) := by
  induction origins generalizing previous with
  | nil => rfl
  | cons origin origins ih =>
    have hl : lineFrom? previous.position (segment previous origin) = some [origin.position] :=
      lineFrom?_segment previous origin 0
    simp [segments, linesFrom?, hl, ih origin]

/-- Segments joined by semicolons decode to the origins that they were made of. -/
theorem decode?_intercalate_segments (h : origins ≠ []) :
    decode? ([';'].intercalate (segments ⟨0, 0⟩ origins)) =
      some (origins.map ([·.position])) := by
  have hs : ([';'].intercalate (segments ⟨0, 0⟩ origins)).splitOn ';' = segments ⟨0, 0⟩ origins :=
    List.splitOn_intercalate ';' (fun _ hl => semicolon_not_mem_segments hl)
      (fun hn => h (segments_eq_nil.1 hn))
  rw [decode?, hs]
  exact linesFrom?_segments ⟨0, 0⟩ origins

theorem mappings_eq_nil : mappings texts = [] ↔ originsFrom 0 texts = [] := by
  unfold mappings
  cases h : originsFrom 0 texts with
  | nil => simp [segments, List.intercalate]
  | cons origin origins =>
    have hn : segment ⟨0, 0⟩ origin ≠ [] := Vlq.encodeAll_ne_nil _ _
    cases origins <;> simp [segments, List.intercalate, hn]

/-- The mappings of texts decode to the origins of their lines. Without any, there is one empty
line. -/
theorem decode?_mappings (texts : List (List Char)) : decode? (mappings texts) =
    some (if originsFrom 0 texts = [] then [[]] else (originsFrom 0 texts).map ([·.position])) := by
  by_cases h : originsFrom 0 texts = []
  · rw [if_pos h, mappings_eq_nil.2 h]
    rfl
  · rw [if_neg h]
    exact decode?_intercalate_segments h

end ScriptHost.SourceMap
