import ScriptHost.Proofs.Reference

/-! Reference directives as they are written. The scanner finds each of them again, whatever white
space and comments stand among them, and looks no further than to the first line of code. -/

namespace ScriptHost

open Text

namespace Reference

/-- White space within a line. -/
structure Space where
  chars : List Char
  blank : ∀ c ∈ chars, isBlank c = true
  lineFeed : '\n' ∉ chars

/-- A directive as it is written: the white space in it, its quotes, and what follows them in the
line. -/
structure Written where
  indent : Space
  beforeTag : Space
  beforeName : Space
  separated : beforeName.chars ≠ []
  beforeEquals : Space
  beforeQuote : Space
  quote : Char
  isQuote : quote = '"' ∨ quote = '\''
  path : List Char
  closed : quote ∉ path
  pathLineFeed : '\n' ∉ path
  tail : List Char
  tailLineFeed : '\n' ∉ tail

namespace Written

/-- The directive behind its three slashes. -/
def tag (written : Written) : List Char :=
  written.beforeTag.chars ++ ("<reference".toList ++ (written.beforeName.chars ++ ("path".toList ++
    (written.beforeEquals.chars ++ ('=' :: (written.beforeQuote.chars ++
      (written.quote :: (written.path ++ (written.quote :: written.tail)))))))))

/-- The directive from its slashes to the end of its line. -/
def chars (written : Written) : List Char := '/' :: '/' :: '/' :: written.tag

/-- The reference that a directive makes behind other text. -/
def reference (written : Written) (before : List Char) : Reference where
  path := .ofList written.path
  start := byteLength (before ++ written.indent.chars)
  length := byteLength (trimEnd written.chars)

end Written

/-- A line of a header without the line feed at its end: white space only, a comment with two
slashes, or a directive. -/
inductive HeaderLine where
  | blank (space : Space)
  | comment (indent : Space) (text : List Char) (hs : text.head? ≠ some '/') (hl : '\n' ∉ text)
  | directive (written : Written)

namespace HeaderLine

def chars : HeaderLine → List Char
  | blank space => space.chars
  | comment indent text _ _ => indent.chars ++ '/' :: '/' :: text
  | directive written => written.indent.chars ++ written.chars

/-- The reference of a line behind other text, if the line is a directive. -/
def reference? (before : List Char) : HeaderLine → Option Reference
  | directive written => some (written.reference before)
  | blank _ | comment .. => none

/-- The text of lines, each with a line feed at its end. -/
def writeAll (lines : List HeaderLine) : List Char := lines.flatMap fun line => line.chars ++ ['\n']

/-- The references of the directives among lines, in their order, behind other text. -/
def references (before : List Char) (lines : List HeaderLine) : List Reference :=
  (lines.mapIdx fun i line => line.reference? (before ++ writeAll (lines.take i))).filterMap id

end HeaderLine

/-- A line that is neither blank nor a comment. -/
structure Code (line : List Char) : Prop where
  busy : trimStart line ≠ []
  uncommented : ¬ ['/', '/'] <+: trimStart line

/-- The first line of a text, without its line feed. -/
def firstLine (cs : List Char) : List Char := cs.takeWhile (· != '\n')

variable {cs ds line rest before : List Char} {lines back : List (List Char)} {offset : Nat}

theorem trimStart_of_head? (h : ∀ c, cs.head? = some c → isBlank c = false) : trimStart cs = cs := by
  cases cs with
  | nil => rfl
  | cons c cs =>
    have hc := h c rfl
    rw [trimStart, List.dropWhile_cons_of_neg (by simp [hc])]

theorem Space.trimStart_append (space : Space) (h : ∀ c, cs.head? = some c → isBlank c = false) :
    trimStart (space.chars ++ cs) = cs := by
  rw [trimStart, List.dropWhile_append_of_pos space.blank]
  exact trimStart_of_head? h

theorem isPrefixOf?_append (word rest : List Char) : word.isPrefixOf? (word ++ rest) = some rest :=
  List.isPrefixOf?_eq_some_iff_append_eq.2 rfl

/-- No blank begins a word without blanks, so that the word is found behind them. -/
theorem after?_blanks {word blanks : List Char} (hw : Solid word) (hn : word ≠ [])
    (hb : ∀ c ∈ blanks, isBlank c = true) (rest : List Char) :
    after? word (blanks ++ (word ++ rest)) = some rest := by
  induction blanks with
  | nil =>
    obtain ⟨first, others, rfl⟩ := List.exists_cons_of_ne_nil hn
    have hp := isPrefixOf?_append (first :: others) rest
    rw [List.nil_append, List.cons_append, after?, ← List.cons_append, hp]
  | cons c blanks ih =>
    obtain ⟨hc, hb⟩ := List.forall_mem_cons.1 hb
    rw [List.cons_append, after?_cons_of_isBlank hw hn hc, ih hb]

theorem quoted?_written (written : Written) :
    quoted? (written.quote :: (written.path ++ (written.quote :: written.tail))) =
      some written.path := by
  have hc : ∀ c ∈ written.path, (c != written.quote) = true := by
    intro c hm
    rw [bne_iff_ne]
    rintro rfl
    exact written.closed hm
  rw [quoted?, if_pos ⟨written.isQuote, by simp⟩, List.takeWhile_append_of_pos hc]
  simp

theorem path?_written (written : Written) : path? written.tag = some written.path := by
  have htag : isBlank '<' = false := by decide
  have hequals : isBlank '=' = false := by decide
  unfold path? Written.tag
  rw [written.beforeTag.trimStart_append (by simp [htag])]
  simp only [isPrefixOf?_append, Option.bind_eq_bind, Option.bind_some]
  rw [after?_blanks (by decide) (by decide) written.beforeName.blank]
  simp only [Option.bind_some]
  rw [written.beforeEquals.trimStart_append (by simp [hequals])]
  have he := isPrefixOf?_append ['='] (written.beforeQuote.chars ++
    (written.quote :: (written.path ++ (written.quote :: written.tail))))
  rw [List.singleton_append] at he
  rw [he, Option.bind_some,
    written.beforeQuote.trimStart_append (by simp [solid_quote written.isQuote])]
  exact quoted?_written written

theorem isBlank_slash : isBlank '/' = false := by decide

namespace HeaderLine

theorem trimStart_chars (line : HeaderLine) : trimStart line.chars = match line with
    | blank _ => []
    | comment _ text _ _ => '/' :: '/' :: text
    | directive written => written.chars := by
  cases line with
  | blank space => exact List.dropWhile_eq_nil_iff.2 space.blank
  | comment indent text => exact indent.trimStart_append (by simp [isBlank_slash])
  | directive written => exact written.indent.trimStart_append (by simp [Written.chars, isBlank_slash])

theorem isHeader_chars (line : HeaderLine) : isHeader line.chars = true := by
  rw [isHeader, trimStart_chars]
  cases line <;> simp [Written.chars]

/-- The scanner finds the reference of a directive, and none in any other line of a header. -/
theorem inLine?_chars (line : HeaderLine) (before : List Char) :
    inLine? (byteLength before) line.chars = line.reference? before := by
  rw [inLine?, trimStart_chars]
  cases line with
  | blank space => rfl
  | comment indent text hs =>
    cases text with
    | nil => rfl
    | cons c text =>
      have hc : ('/' == c) = false := by
        apply beq_false_of_ne
        rintro rfl
        exact hs rfl
      simp [List.isPrefixOf?, hc, reference?]
  | directive written =>
    have hp := isPrefixOf?_append ['/', '/', '/'] written.tag
    have hl : byteLength (written.indent.chars ++ written.chars) - byteLength written.chars =
        byteLength written.indent.chars := by
      rw [byteLength_append, Nat.add_sub_cancel]
    simp only [Written.chars, List.cons_append, List.nil_append] at hp hl ⊢
    simp only [hp, Option.bind_eq_bind, Option.bind_some, path?_written, chars, Written.chars, hl]
    simp [reference?, Written.reference, Written.chars]

theorem references_cons (before : List Char) (line : HeaderLine) (lines : List HeaderLine) :
    references before (line :: lines) =
      (line.reference? before).toList ++ references (before ++ (line.chars ++ ['\n'])) lines := by
  have hb : before ++ writeAll [] = before := List.append_nil before
  have hi : ∀ i, before ++ writeAll ((line :: lines).take (i + 1)) =
      before ++ (line.chars ++ ['\n']) ++ writeAll (lines.take i) := by
    intro i
    rw [List.take_succ_cons, writeAll, List.flatMap_cons, ← List.append_assoc]
    rfl
  rw [references, List.mapIdx_cons, List.take_zero, hb]
  simp only [hi]
  cases hr : line.reference? before with
  | none => exact List.filterMap_cons_none rfl
  | some reference => exact List.filterMap_cons_some rfl

theorem not_mem_chars (line : HeaderLine) : '\n' ∉ line.chars := by
  cases line with
  | blank space => exact space.lineFeed
  | comment indent text _ hl => simp [chars, indent.lineFeed, hl]
  | directive written =>
    have hq : written.quote ≠ '\n' := by
      rcases written.isQuote with h | h <;> simp [h]
    simp [chars, Written.chars, Written.tag, written.indent.lineFeed, written.beforeTag.lineFeed,
      written.beforeName.lineFeed, written.beforeEquals.lineFeed, written.beforeQuote.lineFeed,
      hq.symm, written.pathLineFeed, written.tailLineFeed]

end HeaderLine

theorem not_mem_firstLine (cs : List Char) : '\n' ∉ firstLine cs := by
  intro hm
  simpa using List.mem_takeWhile_imp hm

/-- A text is its first line, or goes on behind it with a line feed. -/
theorem eq_firstLine_or (cs : List Char) :
    cs = firstLine cs ∨ ∃ rest, cs = firstLine cs ++ '\n' :: rest := by
  have h : firstLine cs ++ cs.dropWhile (· != '\n') = cs := List.takeWhile_append_dropWhile
  have hd := List.head?_dropWhile_not (· != '\n') cs
  cases hr : cs.dropWhile (· != '\n') with
  | nil =>
    rw [hr, List.append_nil] at h
    exact .inl h.symm
  | cons c rest =>
    obtain rfl : c = '\n' := by simpa [hr] using hd
    exact .inr ⟨rest, by rw [← hr, h]⟩

theorem Code.isHeader_eq_false (h : Code line) : isHeader line = false := by
  have hp : ['/', '/'].isPrefixOf (trimStart line) = false :=
    Bool.eq_false_iff.2 (mt List.isPrefixOf_iff_prefix.1 h.uncommented)
  simp [isHeader, h.busy, hp]

/-- The first line of code is a line where the scanner stops. -/
theorem Code.exists_lines_eq (h : Code (firstLine cs)) :
    ∃ line back, Text.lines cs = line :: back ∧ isHeader line = false := by
  have hf := h.isHeader_eq_false
  rcases eq_firstLine_or cs with hc | ⟨rest, hc⟩
  · have hn : firstLine cs ≠ [] := by
      intro hn
      exact h.busy (by rw [hn]; rfl)
    refine ⟨firstLine cs, [], ?_, hf⟩
    rw [← lines_eq_singleton (not_mem_firstLine cs) hn, ← hc]
  · refine ⟨firstLine cs ++ ['\n'], Text.lines rest, ?_, ?_⟩
    · rw [← lines_of_not_mem (not_mem_firstLine cs) rest, ← hc]
    · rw [isHeader_of_padded (padded_lineFeed _), hf]

theorem inLines_append_of_code (h : isHeader line = false) (front : List (List Char)) :
    inLines offset (front ++ line :: back) = inLines offset front := by
  induction front generalizing offset with
  | nil => simp [inLines, h]
  | cons first front ih => rw [List.cons_append, inLines, inLines, ih]

/-- Nothing from the first line of code on makes a reference. -/
theorem ofText_append_of_code {front : List Char} (hf : Ended front) (h : Code (firstLine rest)) :
    ofText (.ofList (front ++ rest)) = ofText (.ofList front) := by
  obtain ⟨line, back, hl, hline⟩ := h.exists_lines_eq
  rw [ofText, ofText, String.toList_ofList, String.toList_ofList, lines_append hf, hl,
    inLines_append_of_code hline]

theorem inLines_writeAll (before : List Char) (lines : List HeaderLine) :
    inLines (byteLength before) (Text.lines (HeaderLine.writeAll lines)) =
      HeaderLine.references before lines := by
  induction lines generalizing before with
  | nil => rfl
  | cons line lines ih =>
    have hp := padded_lineFeed line.chars
    have hw : HeaderLine.writeAll (line :: lines) =
        line.chars ++ '\n' :: HeaderLine.writeAll lines := by
      rw [HeaderLine.writeAll, List.flatMap_cons, List.append_assoc]
      rfl
    rw [hw, lines_of_not_mem line.not_mem_chars, inLines, isHeader_of_padded hp,
      line.isHeader_chars, if_pos rfl, inLine?_of_padded hp, line.inLine?_chars,
      ← byteLength_append, ih, HeaderLine.references_cons]

/-- The references of a text whose header is written line by line are those of its directives, one
for each in their order. A reference has the path between the quotes, begins at the slashes and ends
where the white space at the end of the line begins. What stands behind the header makes no
difference, as nothing from the first line of code on makes one in any text. -/
theorem references_found_as_written (lines : List HeaderLine) (rest : List Char)
    (hr : rest = [] ∨ Code (firstLine rest)) :
    ofText (.ofList (HeaderLine.writeAll lines ++ rest)) = HeaderLine.references [] lines ∧
    ∀ front code, Ended front → Code (firstLine code) →
      ofText (.ofList (front ++ code)) = ofText (.ofList front) := by
  have hlines : ofText (.ofList (HeaderLine.writeAll lines)) = HeaderLine.references [] lines := by
    rw [ofText, String.toList_ofList]
    exact inLines_writeAll [] lines
  have hended : Ended (HeaderLine.writeAll lines) := by
    rw [HeaderLine.writeAll, List.flatMap_def]
    refine ended_flatten fun text ht => ?_
    obtain ⟨line, -, rfl⟩ := List.mem_map.1 ht
    exact .inr (by simp)
  refine ⟨?_, fun front code => ofText_append_of_code⟩
  rcases hr with rfl | hc
  · rw [List.append_nil, hlines]
  · rw [ofText_append_of_code hended hc, hlines]

/-- A blank line, a comment without a text, and directives with either quote, with wide spaces and
with a tail that ends in a carriage return. -/
def mixedHeader : List HeaderLine :=
  let none : Space := ⟨[], by simp, by simp⟩
  let one : Space := ⟨[' '], by simp [isBlank], by simp⟩
  let wide : Space := ⟨['\u3000', '\t'], by simp [isBlank], by simp⟩
  [.blank wide, .comment one [] (by simp) (by simp),
    .directive ⟨wide, none, one, by simp [one], none, none, '"', .inl rfl, "it's.ts".toList, by decide,
      by decide, " />\r".toList, by decide⟩,
    .directive ⟨none, wide, wide, by simp [wide], one, wide, '\'', .inr rfl, "\"é\"".toList, by decide,
      by decide, [], by decide⟩]

theorem references_found_as_written_mixed :
    let code := "var x;\n///<reference path=\"late.ts\" />"
    Code (firstLine code.toList) ∧
    ofText (.ofList (HeaderLine.writeAll mixedHeader ++ code.toList)) =
      [⟨"it's.ts", 13, 31⟩, ⟨"\"é\"", 46, 37⟩] := by
  intro code
  have hc : Code (firstLine code.toList) := ⟨by decide, by decide⟩
  exact ⟨hc, (references_found_as_written mixedHeader code.toList (.inr hc)).1.trans (by decide)⟩

end Reference

end ScriptHost
