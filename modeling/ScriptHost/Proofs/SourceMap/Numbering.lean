import ScriptHost.Proofs.SourceMap.Exact
import ScriptHost.Proofs.Text.Terminators

/-! The lines that a source map counts, and those that diagnostics count. A map cuts a text at line
feeds, diagnostics at every line terminator. -/

namespace ScriptHost

namespace Text

/-- The offsets at which lines begin that stand one after another, the first at an offset. -/
def startsFrom (offset : Nat) : List (List Char) → List Nat
  | [] => []
  | line :: lines => offset :: startsFrom (offset + byteLength line) lines

/-- Whether an offset is behind a line feed, and before the end of the text. -/
def BehindLineFeed (cs : List Char) (offset : Nat) : Prop :=
  ∃ before after, cs = before ++ '\n' :: after ∧ after ≠ [] ∧ offset = byteLength (before ++ ['\n'])

/-- Whether an offset is behind a carriage return without a line feed, and before the end of the
text. -/
def BehindReturn (cs : List Char) (offset : Nat) : Prop :=
  ∃ before after, cs = before ++ '\r' :: after ∧ after ≠ [] ∧ after.head? ≠ some '\n' ∧
    offset = byteLength (before ++ ['\r'])

variable {cs line rest : List Char} {ls : List (List Char)} {offset start : Nat}

@[simp] theorem length_startsFrom (offset : Nat) (ls : List (List Char)) :
    (startsFrom offset ls).length = ls.length := by
  induction ls generalizing offset with
  | nil => rfl
  | cons line ls ih => rw [startsFrom, List.length_cons, ih, List.length_cons]

theorem le_of_mem_startsFrom (h : start ∈ startsFrom offset ls) : offset ≤ start := by
  induction ls generalizing offset with
  | nil => simp [startsFrom] at h
  | cons line ls ih =>
    rcases List.mem_cons.1 h with rfl | h
    · exact Nat.le_refl _
    · exact Nat.le_of_add_right_le (ih h)

theorem pairwise_startsFrom (h : ∀ line ∈ ls, line ≠ []) :
    (startsFrom offset ls).Pairwise (· < ·) := by
  induction ls generalizing offset with
  | nil => exact .nil
  | cons line ls ih =>
    obtain ⟨hline, hls⟩ := List.forall_mem_cons.1 h
    have hpos : byteLength line ≠ 0 := mt byteLength_eq_zero.1 hline
    refine List.pairwise_cons.2 ⟨fun start hs => ?_, ih hls⟩
    have hle := le_of_mem_startsFrom hs
    omega

/-- A text is empty, one line that does not end, or a line that ends with a line feed before the
rest. -/
theorem lines_induction {motive : List Char → Prop} (nil : motive [])
    (last : ∀ line, '\n' ∉ line → line ≠ [] → motive line)
    (more : ∀ line rest, '\n' ∉ line → motive rest → motive (line ++ '\n' :: rest))
    (cs : List Char) : motive cs := by
  by_cases hm : '\n' ∈ cs
  · obtain ⟨line, rest, he, hline⟩ := List.eq_append_cons_of_mem hm
    exact he ▸ more line rest hline (lines_induction nil last more rest)
  · by_cases hn : cs = []
    · exact hn ▸ nil
    · exact last cs hm hn
termination_by cs.length
decreasing_by
  rw [he, List.length_append, List.length_cons]
  omega

theorem not_behindLineFeed (h : '\n' ∉ cs) : ¬ BehindLineFeed cs start := by
  rintro ⟨before, after, rfl, -, -⟩
  simp at h

theorem behindLineFeed_append_iff (h : '\n' ∉ line) :
    BehindLineFeed (line ++ '\n' :: rest) start ↔
      (rest ≠ [] ∧ start = byteLength (line ++ ['\n'])) ∨
        ∃ later, BehindLineFeed rest later ∧ start = byteLength (line ++ ['\n']) + later := by
  constructor
  · rintro ⟨before, after, he, hafter, rfl⟩
    rcases List.append_eq_append_iff.1 he with ⟨since, rfl, hs⟩ | ⟨since, rfl, hs⟩
    · cases since with
      | nil =>
        obtain ⟨-, rfl⟩ := List.cons.inj hs
        exact .inl ⟨hafter, by rw [List.append_nil]⟩
      | cons c since =>
        obtain ⟨rfl, rfl⟩ := List.cons.inj hs
        refine .inr ⟨_, ⟨since, after, rfl, hafter, rfl⟩, ?_⟩
        rw [← byteLength_append]
        simp
    · cases since with
      | nil =>
        obtain ⟨-, rfl⟩ := List.cons.inj hs
        exact .inl ⟨hafter, by rw [List.append_nil]⟩
      | cons c since =>
        obtain ⟨rfl, -⟩ := List.cons.inj hs
        simp at h
  · rintro (⟨hn, rfl⟩ | ⟨later, ⟨before, after, rfl, hafter, rfl⟩, rfl⟩)
    · exact ⟨line, rest, rfl, hn, rfl⟩
    · refine ⟨line ++ '\n' :: before, after, by simp, hafter, ?_⟩
      rw [← byteLength_append]
      simp

/-- The lines that end with line feeds begin at the start of the text and behind each line feed. -/
theorem mem_startsFrom_lines_iff (offset : Nat) (cs : List Char) :
    start ∈ startsFrom offset (lines cs) ↔
      (cs ≠ [] ∧ start = offset) ∨ ∃ later, BehindLineFeed cs later ∧ start = offset + later := by
  induction cs using lines_induction generalizing offset with
  | nil => simp [lines, startsFrom, not_behindLineFeed]
  | last line h hn => simp [lines_eq_singleton h hn, startsFrom, not_behindLineFeed h, hn]
  | more line rest h ih =>
    rw [lines_of_not_mem h, startsFrom, List.mem_cons, ih]
    simp only [behindLineFeed_append_iff h, ne_eq, List.append_eq_nil_iff, reduceCtorEq, and_false,
      not_false_eq_true, true_and, or_and_right, exists_or, and_assoc]
    refine or_congr Iff.rfl (or_congr ?_ (exists_behind_iff _).symm)
    simp

/-- A line terminator before the end of a text is a carriage return alone, or ends with a line feed.
-/
theorem endsLine_and_lt_iff : EndsLine cs start ∧ start < byteLength cs ↔
    BehindLineFeed cs start ∨ BehindReturn cs start := by
  constructor
  · rintro ⟨⟨before, terminator, after, rfl, ht, rfl⟩, hlt⟩
    have hn : after ≠ [] := by
      rintro rfl
      simp at hlt
    cases ht with
    | pair => exact .inl ⟨before ++ ['\r'], after, by simp, hn, by simp⟩
    | carriageReturn h => exact .inr ⟨before, after, rfl, hn, h, rfl⟩
    | lineFeed => exact .inl ⟨before, after, rfl, hn, rfl⟩
  · have hlt {before after : List Char} {c : Char} (hn : after ≠ []) :
        byteLength (before ++ [c]) < byteLength (before ++ c :: after) := by
      have hpos : byteLength after ≠ 0 := mt byteLength_eq_zero.1 hn
      simp only [byteLength_append, byteLength_cons, byteLength_nil]
      omega
    rintro (⟨before, after, rfl, hn, rfl⟩ | ⟨before, after, rfl, hn, h, rfl⟩)
    · refine ⟨?_, hlt hn⟩
      by_cases hr : before.getLast? = some '\r'
      · obtain ⟨front, rfl⟩ := List.getLast?_eq_some_iff.1 hr
        exact ⟨front, ['\r', '\n'], after, by simp, .pair, by simp⟩
      · exact ⟨before, ['\n'], after, rfl, .lineFeed hr, rfl⟩
    · exact ⟨⟨before, ['\r'], after, rfl, .carriageReturn h, rfl⟩, hlt hn⟩

theorem not_behindLineFeed_of_behindReturn (h : BehindReturn cs start) : ¬ BehindLineFeed cs start := by
  obtain ⟨before, after, rfl, -, -, rfl⟩ := h
  rintro ⟨front, rest, he, -, hl⟩
  have hb : byteLength before = byteLength front := by simpa [Char.utf8Size] using hl
  obtain rfl := eq_of_byteLength_eq he hb
  simp at he

end Text

namespace SourceText

/-- The offsets at which the lines begin that a source map counts. -/
def mappedStarts (source : SourceText) : List Nat :=
  Text.startsFrom 0 (Text.lines source.text.toList)

/-- The offsets at which the lines begin that diagnostics count, but for the end of the text. -/
def numberedStarts (source : SourceText) : List Nat :=
  (Text.lineStartsInBytes source.text).filter (· < source.size)

variable {source : SourceText} {start : Nat}

theorem mem_mappedStarts_iff : start ∈ source.mappedStarts ↔
    (source.text.toList ≠ [] ∧ start = 0) ∨ Text.BehindLineFeed source.text.toList start := by
  simp [mappedStarts, Text.mem_startsFrom_lines_iff]

/-- Diagnostics count the lines of a source map, and one more behind each carriage return that is no
part of a line feed. -/
theorem mem_numberedStarts_iff : start ∈ source.numberedStarts ↔
    start ∈ source.mappedStarts ∨ Text.BehindReturn source.text.toList start := by
  have hpos : 0 < Text.byteLength source.text.toList ↔ source.text.toList ≠ [] := by
    rw [Nat.pos_iff_ne_zero, ne_eq, Text.byteLength_eq_zero]
  rw [numberedStarts, List.mem_filter, Text.lineStartsInBytes_eq, Text.mem_lineStarts_iff,
    decide_eq_true_iff, size, or_and_right, Text.endsLine_and_lt_iff, mem_mappedStarts_iff, or_assoc]
  refine or_congr ?_ Iff.rfl
  constructor
  · rintro ⟨rfl, h⟩
    exact ⟨hpos.1 h, rfl⟩
  · rintro ⟨h, rfl⟩
    exact ⟨rfl, hpos.2 h⟩

theorem not_mem_mappedStarts (h : Text.BehindReturn source.text.toList start) :
    start ∉ source.mappedStarts := by
  rw [mem_mappedStarts_iff]
  rintro (⟨-, rfl⟩ | hl)
  · obtain ⟨before, after, -, -, -, hz⟩ := h
    simp [Char.utf8Size] at hz
  · exact Text.not_behindLineFeed_of_behindReturn h hl

theorem pairwise_mappedStarts (source : SourceText) : source.mappedStarts.Pairwise (· < ·) :=
  Text.pairwise_startsFrom fun _ => Text.ne_nil_of_mem_lines

theorem pairwise_numberedStarts (source : SourceText) : source.numberedStarts.Pairwise (· < ·) := by
  rw [numberedStarts, Text.lineStartsInBytes_eq]
  exact (Text.pairwise_lineStarts _).filter _

theorem mappedStarts_sublist (source : SourceText) :
    source.mappedStarts.Sublist source.numberedStarts := by
  have hsub : source.mappedStarts ⊆ source.numberedStarts :=
    fun _ h => mem_numberedStarts_iff.2 (.inl h)
  exact List.sublist_of_subperm_of_pairwise
    (List.subperm_of_subset source.pairwise_mappedStarts.nodup hsub)
    source.pairwise_mappedStarts source.pairwise_numberedStarts

theorem mappedStarts_eq_iff : source.mappedStarts = source.numberedStarts ↔
    ∀ start, ¬ Text.BehindReturn source.text.toList start := by
  constructor
  · intro he start hr
    exact not_mem_mappedStarts hr (he ▸ mem_numberedStarts_iff.2 (.inr hr))
  · intro h
    refine source.pairwise_mappedStarts.eq_of_mem_iff source.pairwise_numberedStarts fun start => ?_
    rw [mem_numberedStarts_iff, or_iff_left (h start)]

end SourceText

variable {texts : List (List Char)} {text : List Char} {index : Nat}

/-- The origins that lie in one of several texts are its lines from the first one on. -/
theorem filter_originsFrom (h : texts[index]? = some text) (first : Nat) :
    (SourceMap.originsFrom first texts).filter (·.source = first + index) =
      (List.range (Text.lines text).length).map (SourceMap.Origin.mk (first + index)) := by
  induction texts generalizing index first with
  | nil => simp at h
  | cons other texts ih =>
    rw [SourceMap.originsFrom, List.filter_append]
    cases index with
    | zero =>
      obtain rfl : other = text := Option.some.inj h
      rw [List.filter_eq_self.2 (by simp), List.filter_eq_nil_iff.2, List.append_nil,
        Nat.add_zero]
      intro origin ho
      have hle := le_of_originsFrom ho
      have hne : origin.source ≠ first := by omega
      simpa using hne
    | succ index =>
      have hi := ih h (first + 1)
      rw [Nat.add_right_comm, Nat.add_assoc] at hi
      rw [List.filter_eq_nil_iff.2 (by simp), List.nil_append, hi]

/-- The mappings of the map of an output decode to one position for each line of a source that the
map counts, and these begin where the lines begin that diagnostics count, except for those behind a
carriage return that is no part of a line feed. Both count alike just when there is none but at the
end. -/
theorem lines_numbered_alike_iff (target : Target) :
    ∃ mappings origins,
      Json.Denotes target.sourceMap.json
        (SourceMap.value target.name (target.sources.map (·.name)) mappings) ∧
      SourceMap.decode? mappings =
        some (if origins = [] then [[]] else origins.map ([·.position])) ∧
      ∀ index : Fin target.sources.length,
        let source := target.sources[index]
        let mapped := origins.filter (·.source = index.val)
        mapped.map SourceMap.Origin.line = List.range source.mappedStarts.length ∧
        source.mappedStarts.Sublist source.numberedStarts ∧
        (∀ start, start ∈ source.numberedStarts ↔
          start ∈ source.mappedStarts ∨ Text.BehindReturn source.text.toList start) ∧
        (mapped.length = source.numberedStarts.length ↔
          ∀ start, ¬ Text.BehindReturn source.text.toList start) ∧
        (source.mappedStarts = source.numberedStarts ↔
          ∀ start, ¬ Text.BehindReturn source.text.toList start) := by
  refine ⟨SourceMap.mappings target.texts, SourceMap.originsFrom 0 target.texts, denotes_render _ _,
    SourceMap.decode?_mappings _, fun index => ?_⟩
  intro source mapped
  have ht : target.texts[index.val]? = some source.text.toList := by
    simp [Target.texts, source]
  have hmapped : mapped =
      (List.range source.mappedStarts.length).map (SourceMap.Origin.mk index.val) := by
    have hf := filter_originsFrom ht 0
    rw [Nat.zero_add] at hf
    rw [SourceText.mappedStarts, Text.length_startsFrom]
    exact hf
  have hlength : mapped.length = source.mappedStarts.length := by simp [hmapped]
  refine ⟨?_, source.mappedStarts_sublist, fun _ => SourceText.mem_numberedStarts_iff, ?_,
    SourceText.mappedStarts_eq_iff⟩
  · rw [hmapped, List.map_map]
    exact List.map_id _
  · rw [hlength, ← SourceText.mappedStarts_eq_iff]
    exact ⟨source.mappedStarts_sublist.eq_of_length, congrArg List.length⟩

/-- A carriage return between two characters ends a line for diagnostics, and none for the source
map. -/
theorem return_alone_is_not_mapped :
    let source : SourceText := ⟨"a.ts", "a\rb\n"⟩
    SourceMap.mappings [source.text.toList] = "AAAA".toList ∧ source.mappedStarts = [0] ∧
      source.numberedStarts = [0, 2] ∧ source.lineAndColumn 2 = (2, 1) := by
  decide +kernel

end ScriptHost
