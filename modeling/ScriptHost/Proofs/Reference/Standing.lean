import ScriptHost.Proofs.Reference

/-! Where the references of a text stand in it, told without the scanner that finds them. -/

namespace ScriptHost

open Text

variable {cs line : List Char} {lines : List (List Char)} {offset : Nat} {reference : Reference}

/-- A line holds no line feed but at its end. -/
theorem Text.lineFeed_not_mem_dropLast (h : line ∈ Text.lines cs) : '\n' ∉ line.dropLast := by
  induction cs generalizing line with
  | nil => simp [Text.lines] at h
  | cons c cs ih =>
    by_cases hc : c = '\n'
    · rw [Text.lines, if_pos hc] at h
      rcases List.mem_cons.1 h with rfl | h
      · simp
      · exact ih h
    · by_cases hn : cs = []
      · subst cs
        simp [Text.lines, hc] at h
        simp [h]
      · obtain ⟨first, rest, hl⟩ := List.exists_cons_of_ne_nil (mt lines_eq_nil.1 hn)
        have hf : first ≠ [] := ne_nil_of_mem_lines (by simp [hl] : first ∈ Text.lines cs)
        rw [lines_cons_of_ne hc hl] at h
        rcases List.mem_cons.1 h with rfl | h
        · have hfirst := ih (by simp [hl] : first ∈ Text.lines cs)
          rw [List.dropLast_cons_of_ne_nil hf]
          intro hm
          rcases List.mem_cons.1 hm with he | hm
          · exact hc he.symm
          · exact hfirst hm
        · exact ih (by simp [hl, h])

/-- A word without blanks in front of a text is in front of it without the blanks at its end. -/
theorem Text.Padded.exists_behind {word cs ds rest : List Char} (h : Padded cs ds)
    (hr : word.isPrefixOf? ds = some rest) (hw : Solid word) :
    ∃ inner, cs = word ++ inner ∧ Padded inner rest := by
  have hp := h.isPrefixOf? hw
  rw [hr] at hp
  generalize hs : word.isPrefixOf? cs = first at hp
  cases hp with
  | some hrest => exact ⟨_, (List.isPrefixOf?_eq_some_iff_append_eq.1 hs).symm, hrest⟩

namespace Reference

/-- The lines at the beginning of a text that are blank or comments. -/
def header (cs : List Char) : List Char := ((Text.lines cs).takeWhile isHeader).flatten

/-- What a directive looks like: three slashes and what names a path, in one line and without a
blank at its end. -/
structure Directive (path : String) (cs : List Char) : Prop where
  names : ∃ rest, cs = '/' :: '/' :: '/' :: rest ∧ path? rest = some path.toList
  line : '\n' ∉ cs
  trimmed : ∀ c, cs.getLast? = some c → isBlank c = false

/-- A reference stands in a text where its directive begins and ends, within the header. -/
structure Stands (reference : Reference) (cs : List Char) (before directive after : List Char) :
    Prop where
  text : cs = before ++ directive ++ after
  start : reference.start = byteLength before
  length : reference.length = byteLength directive
  header : before ++ directive <+: Reference.header cs
  shape : Directive reference.path directive

theorem lineFeed_not_mem_of_trimmed {before directive after : List Char}
    (hl : '\n' ∉ (before ++ directive ++ after).dropLast)
    (ht : ∀ c, directive.getLast? = some c → isBlank c = false) : '\n' ∉ directive := by
  intro hm
  rcases List.eq_nil_or_concat directive with rfl | ⟨front, last, rfl⟩
  · simp at hm
  · rw [List.concat_eq_append] at hm hl ht
    have hlast : last ≠ '\n' := by
      rintro rfl
      have hb := ht '\n' (by simp)
      exact absurd hb (by decide)
    have hfront : '\n' ∈ front := by simpa [hlast.symm] using hm
    have he : before ++ (front ++ [last]) ++ after = before ++ front ++ (last :: after) := by simp
    rw [he, List.dropLast_append_of_ne_nil (by simp)] at hl
    exact hl (by simp [hfront])

/-- The directive of a line is what is left of it without the blanks around it. -/
theorem directive_of_inLine? (h : inLine? offset line = some reference)
    (hl : '\n' ∉ line.dropLast) :
    ∃ before directive after, line = before ++ directive ++ after ∧
      reference.start = offset + byteLength before ∧
      reference.length = byteLength directive ∧ Directive reference.path directive := by
  simp only [inLine?, Option.bind_eq_bind, Option.bind_eq_some_iff, Option.pure_def,
    Option.some.injEq] at h
  obtain ⟨rest, hslashes, path, hpath, rfl⟩ := h
  have hline : line.takeWhile isBlank ++ trimStart line = line := List.takeWhile_append_dropWhile
  have hpadded := padded_trimEnd (trimStart line)
  -- The three slashes are in front of the blanks at the end, and so is the path.
  obtain ⟨inner, hdirective, hrest⟩ := hpadded.exists_behind hslashes (by decide)
  obtain ⟨blanks, htrim, -⟩ := hpadded
  have htext : line = line.takeWhile isBlank ++ trimEnd (trimStart line) ++ blanks := by
    rw [List.append_assoc, ← htrim, hline]
  have htrimmed : ∀ c, (trimEnd (trimStart line)).getLast? = some c → isBlank c = false :=
    fun c hc => isBlank_getLast?_trimEnd hc
  refine ⟨line.takeWhile isBlank, trimEnd (trimStart line), blanks, htext, ?_, rfl, ?_⟩
  · have hlength := congrArg byteLength hline
    rw [byteLength_append] at hlength
    simp only
    omega
  · refine ⟨⟨inner, hdirective, ?_⟩, ?_, htrimmed⟩
    · rw [path?_of_padded hrest, hpath, String.toList_ofList]
    · rw [htext] at hl
      exact lineFeed_not_mem_of_trimmed hl htrimmed

/-- Each reference is found in a line of its own, behind lines that are all in the header. -/
theorem exists_line_of_mem_inLines (h : reference ∈ inLines offset lines) :
    ∃ front line back, lines = front ++ line :: back ∧ (∀ l ∈ front ++ [line], isHeader l = true) ∧
      inLine? (offset + byteLength front.flatten) line = some reference := by
  induction lines generalizing offset with
  | nil => simp [inLines] at h
  | cons first lines ih =>
    rw [inLines] at h
    by_cases hf : isHeader first = true
    · rw [if_pos hf] at h
      rcases List.mem_append.1 h with h | h
      · exact ⟨[], first, lines, rfl, by simpa using hf, Option.mem_toList.1 h⟩
      · obtain ⟨front, line, back, rfl, hheader, hline⟩ := ih h
        refine ⟨first :: front, line, back, rfl, ?_, ?_⟩
        · exact List.forall_mem_cons.2 ⟨hf, hheader⟩
        · rw [List.flatten_cons, byteLength_append, ← Nat.add_assoc]
          exact hline
    · rw [if_neg hf] at h
      simp at h

/-- Every reference of a text stands in it. -/
theorem exists_stands_of_mem_ofText {text : String} (h : reference ∈ ofText text) :
    ∃ before directive after, reference.Stands text.toList before directive after := by
  obtain ⟨front, line, back, hlines, hheader, hline⟩ := exists_line_of_mem_inLines h
  have hmem : line ∈ Text.lines text.toList := by
    rw [hlines]
    simp
  have hfeed : '\n' ∉ line.dropLast := Text.lineFeed_not_mem_dropLast hmem
  obtain ⟨blanks, directive, rest, rfl, hstart, hlength, hd⟩ := directive_of_inLine? hline hfeed
  have htext := flatten_lines text.toList
  have hrun : (Text.lines text.toList).takeWhile isHeader =
      front ++ [blanks ++ directive ++ rest] ++ back.takeWhile isHeader := by
    have hsplit : front ++ (blanks ++ directive ++ rest) :: back =
        front ++ [blanks ++ directive ++ rest] ++ back := by simp
    rw [hlines, hsplit, List.takeWhile_append_of_pos hheader]
  refine ⟨front.flatten ++ blanks, directive, rest ++ back.flatten, ?_, ?_, hlength, ?_, hd⟩
  · rw [← htext, hlines]
    simp
  · rw [hstart, byteLength_append, Nat.zero_add]
  · rw [header, hrun]
    exact ⟨rest ++ (back.takeWhile isHeader).flatten, by simp⟩

end Reference

end ScriptHost
