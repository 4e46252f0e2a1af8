import Mathlib.Data.List.Basic
import Mathlib.Data.List.TakeWhile
import ScriptHost.Proofs.Text.Lines
import ScriptHost.Reference

/-! Blanks at the end of a line make no difference to its reference. In particular, the references
of a text do not change when a line feed ends its last line. -/

namespace ScriptHost

open Text

variable {cs ds line word : List Char} {c : Char} {offset : Nat}

/-- Whether a text is another one with blanks behind it. -/
def Text.Padded (cs ds : List Char) : Prop :=
  ∃ blanks, ds = cs ++ blanks ∧ ∀ c ∈ blanks, isBlank c = true

namespace Text

/-- A word without blanks. -/
def Solid (word : List Char) : Prop := ∀ c ∈ word, isBlank c = false

instance : DecidablePred Solid := fun word =>
  decidable_of_iff (word.all (!isBlank ·) = true) (by simp [Solid])

theorem padded_lineFeed (cs : List Char) : Padded cs (cs ++ ['\n']) :=
  ⟨['\n'], rfl, by simp [isBlank]⟩

theorem padded_ended (cs : List Char) : Padded cs (ended cs) := by
  unfold ended
  split
  · exact ⟨[], by simp, by simp⟩
  · exact padded_lineFeed cs

theorem padded_trimEnd (cs : List Char) : Padded (trimEnd cs) cs := by
  refine ⟨(cs.reverse.takeWhile isBlank).reverse, ?_, ?_⟩
  · have h : cs.reverse.takeWhile isBlank ++ cs.reverse.dropWhile isBlank = cs.reverse :=
      List.takeWhile_append_dropWhile
    rw [trimEnd, ← List.reverse_append, h, List.reverse_reverse]
  · intro c hc
    exact List.mem_takeWhile_imp (List.mem_reverse.1 hc)

theorem isBlank_getLast?_trimEnd (h : (trimEnd cs).getLast? = some c) : isBlank c = false := by
  have hd := List.head?_dropWhile_not isBlank cs.reverse
  rw [trimEnd, List.getLast?_reverse] at h
  simpa [h] using hd

theorem Padded.exists_cons (h : Padded (c :: cs) ds) : ∃ rest, ds = c :: rest ∧ Padded cs rest := by
  obtain ⟨blanks, rfl, hb⟩ := h
  exact ⟨cs ++ blanks, rfl, blanks, rfl, hb⟩

theorem Padded.blank_of_nil (h : Padded [] ds) : ∀ c ∈ ds, isBlank c = true := by
  obtain ⟨blanks, rfl, hb⟩ := h
  exact hb

theorem trimStart_padding {blanks : List Char} (cs : List Char)
    (hb : ∀ c ∈ blanks, isBlank c = true) :
    trimStart (cs ++ blanks) = if trimStart cs = [] then [] else trimStart cs ++ blanks := by
  simp only [trimStart, List.dropWhile_append, List.isEmpty_iff, List.dropWhile_eq_nil_iff.2 hb]
  rfl

theorem Padded.trimStart (h : Padded cs ds) : Padded (trimStart cs) (trimStart ds) := by
  obtain ⟨blanks, rfl, hb⟩ := h
  rw [trimStart_padding cs hb]
  by_cases hn : Text.trimStart cs = []
  · rw [if_pos hn, hn]
    exact ⟨[], rfl, by simp⟩
  · rw [if_neg hn]
    exact ⟨blanks, rfl, hb⟩

theorem Padded.trimEnd_eq (h : Padded cs ds) : trimEnd ds = trimEnd cs := by
  obtain ⟨blanks, rfl, hb⟩ := h
  have hr : ∀ c ∈ blanks.reverse, isBlank c = true := by
    intro c hc
    exact hb c (List.mem_reverse.1 hc)
  rw [trimEnd, List.reverse_append, List.dropWhile_append_of_pos hr, trimEnd]

/-- A word without blanks is found in front of blanks at the end if it is found at all. -/
theorem Padded.isPrefixOf? (h : Padded cs ds) (hw : Solid word) :
    Option.Rel Padded (word.isPrefixOf? cs) (word.isPrefixOf? ds) := by
  obtain ⟨blanks, rfl, hb⟩ := h
  cases hp : word.isPrefixOf? cs with
  | some rest =>
    have he : word ++ rest = cs := List.isPrefixOf?_eq_some_iff_append_eq.1 hp
    have hd : word.isPrefixOf? (cs ++ blanks) = some (rest ++ blanks) := by
      rw [List.isPrefixOf?_eq_some_iff_append_eq, ← List.append_assoc, he]
    rw [hd]
    exact .some ⟨blanks, rfl, hb⟩
  | none =>
    have hd : word.isPrefixOf? (cs ++ blanks) = none := by
      apply Option.eq_none_iff_forall_ne_some.2
      intro rest hs
      have he : word ++ rest = cs ++ blanks := List.isPrefixOf?_eq_some_iff_append_eq.1 hs
      obtain ⟨more, hcs, -⟩ | ⟨excess, hword, hblanks⟩ := List.append_eq_append_iff.1 he
      · simp [List.isPrefixOf?_eq_some_iff_append_eq.2 hcs.symm] at hp
      · cases excess with
        | nil =>
          rw [List.append_nil] at hword
          simp [hword, List.isPrefixOf?_eq_some_iff_append_eq.2 (List.append_nil cs)] at hp
        | cons c excess =>
          have hsolid := hw c (by simp [hword])
          have hblank := hb c (by simp [hblanks])
          simp [hsolid] at hblank
    rw [hd]
    exact .none

theorem bind_of_padded {α : Type} {first second : Option (List Char)}
    {next : List Char → Option α} (h : Option.Rel Padded first second)
    (hn : ∀ cs ds, Padded cs ds → next cs = next ds) : first >>= next = second >>= next := by
  cases h with
  | none => rfl
  | some h => exact hn _ _ h

end Text

namespace Reference

/-- A word without blanks does not begin at a blank. -/
theorem after?_cons_of_isBlank (hw : Solid word) (hn : word ≠ []) (hc : isBlank c = true)
    (cs : List Char) : after? word (c :: cs) = after? word cs := by
  obtain ⟨first, rest, rfl⟩ := List.exists_cons_of_ne_nil hn
  have hne : (first == c) = false := by
    apply beq_false_of_ne
    rintro rfl
    simp [hw first List.mem_cons_self] at hc
  rw [after?]
  simp [List.isPrefixOf?, hne]

theorem after?_of_blank (hb : ∀ c ∈ ds, isBlank c = true) (hw : Solid word) (hn : word ≠ []) :
    after? word ds = none := by
  induction ds with
  | nil => simp [after?, hn]
  | cons c ds ih =>
    obtain ⟨hc, hb⟩ := List.forall_mem_cons.1 hb
    rw [after?_cons_of_isBlank hw hn hc, ih hb]

/-- What follows a word in front of blanks at the end is what follows it at all. -/
theorem padded_after? (h : Padded cs ds) (hw : Solid word) (hn : word ≠ []) :
    Option.Rel Padded (after? word cs) (after? word ds) := by
  induction cs generalizing ds with
  | nil =>
    rw [after?_of_blank (by simp) hw hn, after?_of_blank h.blank_of_nil hw hn]
    exact .none
  | cons c cs ih =>
    obtain ⟨rest, rfl, hrest⟩ := h.exists_cons
    have hp := h.isPrefixOf? hw
    rw [after?, after?]
    generalize word.isPrefixOf? (c :: cs) = first at hp
    generalize word.isPrefixOf? (c :: rest) = second at hp
    cases hp with
    | none => exact ih hrest
    | some hf => exact .some hf

theorem solid_quote {quote : Char} (h : quote = '"' ∨ quote = '\'') : isBlank quote = false := by
  rcases h with rfl | rfl <;> decide

theorem quoted?_of_padded (h : Padded cs ds) : quoted? cs = quoted? ds := by
  cases cs with
  | nil =>
    cases ds with
    | nil => rfl
    | cons quote ds =>
      have hq : ¬ (quote = '"' ∨ quote = '\'') := by
        intro hq
        simpa [solid_quote hq] using h.blank_of_nil quote List.mem_cons_self
      simp [quoted?, hq]
  | cons quote cs =>
    obtain ⟨blanks, rfl, hb⟩ := h
    rw [List.cons_append, quoted?, quoted?]
    by_cases hq : quote = '"' ∨ quote = '\''
    · have hout : quote ∉ blanks := by
        intro hm
        simpa [solid_quote hq] using hb quote hm
      by_cases hm : quote ∈ cs
      · have htake : (cs ++ blanks).takeWhile (· != quote) = cs.takeWhile (· != quote) := by
          rw [List.takeWhile_append, if_neg]
          intro hl
          have hself := (List.takeWhile_prefix _).eq_of_length hl
          rw [← hself] at hm
          simpa using List.mem_takeWhile_imp hm
        rw [if_pos ⟨hq, hm⟩, if_pos ⟨hq, List.mem_append_left _ hm⟩, htake]
      · rw [if_neg fun h => hm h.2, if_neg]
        simp [hm, hout]
    · simp [hq]

/-- Blanks at the end of a directive make no difference to its path. -/
theorem path?_of_padded (h : Padded cs ds) : path? cs = path? ds := by
  unfold path?
  refine bind_of_padded (h.trimStart.isPrefixOf? (by decide)) fun tag other htag => ?_
  refine bind_of_padded (padded_after? htag (by decide) (by decide)) fun named other hnamed => ?_
  refine bind_of_padded (hnamed.trimStart.isPrefixOf? (by decide)) fun value other hvalue => ?_
  exact quoted?_of_padded hvalue.trimStart

theorem inLine?_of_padded (h : Padded cs ds) : inLine? offset ds = inLine? offset cs := by
  have hend := h.trimStart.trimEnd_eq
  obtain ⟨blanks, rfl, hb⟩ := h
  unfold inLine?
  rw [trimStart_padding cs hb] at hend ⊢
  by_cases hn : trimStart cs = []
  · rw [if_pos hn, hn]
    rfl
  · rw [if_neg hn] at hend ⊢
    have hp : Option.Rel Padded (['/', '/', '/'].isPrefixOf? (trimStart cs))
        (['/', '/', '/'].isPrefixOf? (trimStart cs ++ blanks)) :=
      Padded.isPrefixOf? ⟨blanks, rfl, hb⟩ (by decide)
    have hstart : byteLength (cs ++ blanks) - byteLength (trimStart cs ++ blanks) =
        byteLength cs - byteLength (trimStart cs) := by
      rw [byteLength_append, byteLength_append, Nat.add_sub_add_right]
    simp only [hstart, hend]
    refine (bind_of_padded hp fun rest other hrest => ?_).symm
    rw [path?_of_padded hrest]

theorem isHeader_of_padded (h : Padded cs ds) : isHeader ds = isHeader cs := by
  have hsolid : Solid ['/', '/'] := by decide
  have hp := h.trimStart.isPrefixOf? hsolid
  have hnil : (trimStart ds).isEmpty = (trimStart cs).isEmpty := by
    obtain ⟨blanks, rfl, hb⟩ := h
    rw [trimStart_padding cs hb]
    by_cases hn : trimStart cs = []
    · rw [if_pos hn, hn]
    · rw [if_neg hn, List.isEmpty_eq_false_iff.2 hn, List.isEmpty_eq_false_iff.2 (by simp [hn])]
  have hslashes : ['/', '/'].isPrefixOf (trimStart ds) = ['/', '/'].isPrefixOf (trimStart cs) := by
    rw [← List.isSome_isPrefixOf?_eq_isPrefixOf, ← List.isSome_isPrefixOf?_eq_isPrefixOf]
    generalize ['/', '/'].isPrefixOf? (trimStart cs) = first at hp
    generalize ['/', '/'].isPrefixOf? (trimStart ds) = second at hp
    cases hp with
    | none => rfl
    | some h => rfl
  simp only [isHeader, hnil, hslashes]

/-- Ending the last of lines adds no reference and takes none away. -/
theorem inLines_ended (offset : Nat) {lines : List (List Char)}
    (h : ∀ line ∈ lines.dropLast, Ended line) :
    inLines offset (lines.map ended) = inLines offset lines := by
  induction lines generalizing offset with
  | nil => rfl
  | cons line lines ih =>
    rw [List.map_cons, inLines, inLines, isHeader_of_padded (padded_ended line),
      inLine?_of_padded (padded_ended line)]
    cases lines with
    | nil => rfl
    | cons next lines =>
      have hl : ended line = line := if_pos (h line (by simp))
      rw [hl, ih _ fun line hm => h line (by simp [hm])]

end Reference

/-- A text has the references that it has with a line feed at its end. -/
theorem Reference.ofText_congr_ended {text other : String} (h : other.toList = ended text.toList) :
    ofText other = ofText text := by
  rw [ofText, ofText, h, lines_ended]
  exact inLines_ended 0 fun _ => ended_of_mem_dropLast

end ScriptHost
