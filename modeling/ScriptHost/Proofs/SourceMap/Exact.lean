import ScriptHost.Proofs.FixedHost
import ScriptHost.Proofs.SourceMap.Decode
import ScriptHost.Proofs.Text.Json
import ScriptHost.Proofs.Text.Lines
import ScriptHost.Target

/-! What the source map of an output says about the lines of the output. -/

namespace ScriptHost

open SourceMap

/-- The value that a source map stands for. -/
def SourceMap.value (output : String) (sources : List String) (mappings : List Char) :
    Json.Value :=
  .record [("file", .text (FileName.base output)), ("mappings", .text (.ofList mappings)),
    ("names", .list []), ("sourceRoot", .text ""), ("sources", .list (sources.map .text)),
    ("version", .number 3)]

/-- The texts that an output holds. -/
def Target.texts (target : Target) : List (List Char) := target.sources.map (·.text.toList)

/-- Whether a written line is the line of an origin among texts, ended if it was not. -/
def Copies (texts : List (List Char)) (written : List Char) (origin : Origin) : Prop :=
  ∃ text line, texts[origin.source]? = some text ∧
    (Text.lines text)[origin.line]? = some line ∧ written = Text.ended line

/-- Whether an origin stands before another in the order of sources and their lines. -/
def SourceMap.Origin.Before (first second : Origin) : Prop :=
  first.source < second.source ∨ first.source = second.source ∧ first.line < second.line

variable {texts : List (List Char)} {index : Nat} {origin : Origin}

theorem denotes_render (output : String) (sources : List SourceText) :
    Json.Denotes (render output sources)
      (SourceMap.value output (sources.map (·.name)) (mappings (sources.map (·.text.toList)))) := by
  have hs : Json.Denotes (Text.jsonArray (sources.map (Text.jsonString ·.name)))
      (.list ((sources.map (·.name)).map .text)) := by
    refine Json.denotes_jsonArray ?_
    rw [List.map_map, List.forall₂_map_left_iff, List.forall₂_map_right_iff]
    exact List.forall₂_same.2 fun source _ => Json.denotes_jsonString source.name
  have h₁ : Json.tokens? "\x7b\"file\":" =
      some [.mark '\x7b', .text "file", .mark ':'] := by decide
  have h₂ : Json.tokens? ",\"mappings\":" =
      some [.mark ',', .text "mappings", .mark ':'] := by decide
  have h₃ : Json.tokens? ",\"names\":[],\"sourceRoot\":\"\",\"sources\":" =
      some [.mark ',', .text "names", .mark ':', .mark '[', .mark ']', .mark ',',
        .text "sourceRoot", .mark ':', .text "", .mark ',', .text "sources", .mark ':'] := by decide
  have h₄ : Json.tokens? ",\"version\":3\x7d" =
      some [.mark ',', .text "version", .mark ':', .mark '3', .mark '\x7d'] := by decide
  have hf := Json.tokens?_append h₁ (Json.tokens?_jsonString (FileName.base output))
  have hm := Json.tokens?_append (Json.tokens?_append hf h₂) (Json.tokens?_jsonString
    (.ofList (mappings (sources.map (·.text.toList)))))
  have ht := Json.tokens?_append (Json.tokens?_append (Json.tokens?_append hm h₃) hs) h₄
  have hd : Nat.toDigits 10 3 = ['3'] := by decide
  rw [Json.Denotes, render, ht]
  simp [SourceMap.value, Json.Value.tokens, List.intercalate_cons_cons, hd]

theorem le_of_originsFrom (h : origin ∈ originsFrom index texts) : index ≤ origin.source := by
  induction texts generalizing index with
  | nil => simp [originsFrom] at h
  | cons text texts ih =>
    rcases List.mem_append.1 h with h | h
    · obtain ⟨line, -, rfl⟩ := List.mem_map.1 h
      exact Nat.le_refl _
    · have hi := ih h
      omega

theorem pairwise_originsFrom (index : Nat) (texts : List (List Char)) :
    (originsFrom index texts).Pairwise Origin.Before := by
  induction texts generalizing index with
  | nil => exact .nil
  | cons text texts ih =>
    refine List.pairwise_append.2 ⟨?_, ih (index + 1), ?_⟩
    · rw [List.pairwise_map]
      exact List.pairwise_lt_range.imp fun h => .inr ⟨rfl, h⟩
    · intro first hf second hs
      obtain ⟨line, -, rfl⟩ := List.mem_map.1 hf
      exact .inl (le_of_originsFrom hs)

theorem originsFrom_eq_nil : originsFrom index texts = [] ↔ ∀ text ∈ texts, text = [] := by
  induction texts generalizing index with
  | nil => simp [originsFrom]
  | cons text texts ih => simp [originsFrom, ih]

theorem forall₂_copies_text (before after : List (List Char)) (text : List Char) :
    List.Forall₂ (Copies (before ++ text :: after)) ((Text.lines text).map Text.ended)
      ((List.range (Text.lines text).length).map (Origin.mk before.length)) := by
  rw [List.forall₂_map_left_iff, List.forall₂_map_right_iff, List.forall₂_iff_get]
  refine ⟨by simp, fun i hi _ => ⟨text, (Text.lines text)[i], by simp, ?_, rfl⟩⟩
  simp

/-- The lines of texts that were each ended match the origins of the texts, one for one. -/
theorem forall₂_copies (before texts : List (List Char)) :
    List.Forall₂ (Copies (before ++ texts)) (texts.flatMap fun text => Text.lines (Text.ended text))
      (originsFrom before.length texts) := by
  induction texts generalizing before with
  | nil => exact .nil
  | cons text texts ih =>
    have ht := ih (before ++ [text])
    rw [List.append_assoc, List.singleton_append, List.length_append, List.length_singleton] at ht
    rw [List.flatMap_cons, originsFrom, Text.lines_ended]
    exact List.rel_append (forall₂_copies_text before texts text) ht

theorem toList_terminated (text : String) :
    (Target.terminated "\n" text).toList = Text.ended text.toList := by
  unfold Target.terminated Text.ended Text.Ended
  by_cases he : text.toList = []
  · simp [he]
  · by_cases hl : text.toList.getLast? = some '\n' <;> simp [he, hl]

theorem toList_body (target : Target) :
    (target.body "\n").toList = (target.texts.map Text.ended).flatten := by
  simp [Target.body, Target.texts, List.flatMap_def, Function.comp_def, toList_terminated]

theorem ended_body (target : Target) : Text.Ended (target.body "\n").toList := by
  rw [toList_body]
  refine Text.ended_flatten fun text ht => ?_
  obtain ⟨text, -, rfl⟩ := List.mem_map.1 ht
  exact Text.ended_ended text

theorem lines_body (target : Target) :
    Text.lines (target.body "\n").toList =
      target.texts.flatMap fun text => Text.lines (Text.ended text) := by
  rw [toList_body, Text.lines_flatten, List.flatMap_map]
  intro text ht
  obtain ⟨text, -, rfl⟩ := List.mem_map.1 ht
  exact Text.ended_ended text

/-- On a host that ends lines with a line feed, an output with a map is written before its map, and
the mappings of the map decode to one position for each line before the trailer: the start of the
line of a source that it copies. -/
theorem source_map_exact (target : Target) (host : FixedHost) (hn : host.newLine = "\n") :
    ∃ body trailer mappings origins,
      (target.emit true).asks host =
        [.query .newLine, .write target.name (body ++ trailer) false,
          .write target.mapName target.sourceMap.json false] ∧
      trailer = "//# sourceMappingURL=" ++ FileName.base target.mapName ++ "\n" ∧
      Text.lines (body ++ trailer).toList =
        Text.lines body.toList ++ Text.lines trailer.toList ∧
      Json.Denotes target.sourceMap.json
        (SourceMap.value target.name (target.sources.map (·.name)) mappings) ∧
      SourceMap.decode? mappings =
        some (if origins = [] then [[]] else origins.map ([·.position])) ∧
      List.Forall₂ (Copies target.texts) (Text.lines body.toList) origins ∧
      origins.Pairwise Origin.Before ∧
      (mappings = [] ↔ ∀ source ∈ target.sources, source.text = "") := by
  have hasks : (target.emit true).asks host =
      [.query .newLine, .write target.name (target.body "\n" ++ target.trailer "\n") false,
        .write target.mapName target.sourceMap.json false] := by
    rw [← hn]
    rfl
  refine ⟨_, _, mappings target.texts, originsFrom 0 target.texts, hasks, rfl, ?_,
    denotes_render _ _, decode?_mappings _, ?_, pairwise_originsFrom _ _, ?_⟩
  · rw [String.toList_append, Text.lines_append (ended_body target)]
  · rw [lines_body]
    exact forall₂_copies [] target.texts
  · rw [mappings_eq_nil, originsFrom_eq_nil]
    simp [Target.texts]

/-- An empty source between two whose last lines are not ended. -/
theorem source_map_exact_unterminated :
    let target : Target :=
      ⟨"out/all.js", [⟨"a.ts", "one\r\ntwo"⟩, ⟨"b.ts", ""⟩, ⟨"c.ts", "\nthree"⟩]⟩
    let host : FixedHost := .serving []
    let written := "one\r\ntwo\n\nthree\n//# sourceMappingURL=all.js.map\n"
    host.newLine = "\n" ∧
    (target.emit true).asks host = [.query .newLine, .write "out/all.js" written false,
      .write "out/all.js.map" target.sourceMap.json false] ∧
    ∃ (mappings : List Char) (origins : List Origin),
      Json.Denotes target.sourceMap.json
        (SourceMap.value "out/all.js" ["a.ts", "b.ts", "c.ts"] mappings) ∧
      SourceMap.decode? mappings = some (origins.map ([·.position])) ∧ origins.length = 4 ∧
      origins.Pairwise Origin.Before := by
  intro target host written
  obtain ⟨body, trailer, mappings, origins, hasks, htrailer, hlines, hjson, hdecode, hcopies,
    hbefore, -⟩ := source_map_exact target host rfl
  have hw : (target.emit true).asks host = [.query .newLine, .write "out/all.js" written false,
      .write "out/all.js.map" target.sourceMap.json false] := by decide +kernel
  have htext : body ++ trailer = written :=
    (Ask.write.inj (List.cons.inj (List.cons.inj (hasks.symm.trans hw)).2).1).2.1
  have hlength : origins.length = 4 := by
    have hall : (Text.lines written.toList).length = 5 := by decide +kernel
    have hlast : (Text.lines ("//# sourceMappingURL=" ++ FileName.base target.mapName ++
        "\n").toList).length = 1 := by decide +kernel
    have hcount := congrArg List.length hlines
    rw [htext, htrailer, hall, List.length_append, hlast] at hcount
    have hsame := hcopies.length_eq
    omega
  have ho : origins ≠ [] := List.ne_nil_of_length_eq_add_one hlength
  rw [if_neg ho] at hdecode
  exact ⟨rfl, hw, mappings, origins, hjson, hdecode, hlength, hbefore⟩

end ScriptHost
