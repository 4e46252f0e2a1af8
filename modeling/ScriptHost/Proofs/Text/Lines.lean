import ScriptHost.Text.Lines

/-! The lines of texts that are put together. -/

namespace ScriptHost.Text

variable {cs line : List Char} {ls : List (List Char)} {c : Char}

/-- A text that a line feed ends, unless it is empty. -/
def Ended (cs : List Char) : Prop := cs = [] ∨ cs.getLast? = some '\n'

instance : DecidablePred Ended := fun cs =>
  inferInstanceAs (Decidable (cs = [] ∨ cs.getLast? = some '\n'))

/-- A text with the line feed that it lacks at its end. -/
def ended (cs : List Char) : List Char := if Ended cs then cs else cs ++ ['\n']

theorem Ended.tail (h : Ended (c :: cs)) : Ended cs := by
  cases cs with
  | nil => exact .inl rfl
  | cons d ds =>
    rcases h with h | h
    · simp at h
    · exact .inr (by simpa using h)

theorem ended_cons_iff (h : cs ≠ []) : Ended (c :: cs) ↔ Ended cs := by
  obtain ⟨d, ds, rfl⟩ := List.exists_cons_of_ne_nil h
  simp [Ended]

theorem ended_cons (h : cs ≠ []) : ended (c :: cs) = c :: ended cs := by
  unfold ended
  by_cases he : Ended cs
  · rw [if_pos he, if_pos ((ended_cons_iff h).2 he)]
  · rw [if_neg he, if_neg (mt (ended_cons_iff h).1 he), List.cons_append]

theorem ended_ended (cs : List Char) : Ended (ended cs) := by
  unfold ended
  split
  · assumption
  · exact .inr (by simp)

theorem lines_cons_of_ne (hc : c ≠ '\n') (h : lines cs = line :: ls) :
    lines (c :: cs) = (c :: line) :: ls := by
  rw [lines, if_neg hc, h]

/-- A line that a line feed ends is the first of the lines, whatever follows it. -/
theorem lines_of_not_mem (h : '\n' ∉ line) (rest : List Char) :
    lines (line ++ '\n' :: rest) = (line ++ ['\n']) :: lines rest := by
  induction line with
  | nil => rw [List.nil_append, List.nil_append, lines, if_pos rfl]
  | cons c line ih =>
    obtain ⟨hc, hl⟩ := List.ne_and_not_mem_of_not_mem_cons h
    exact lines_cons_of_ne hc.symm (ih hl)

theorem lines_eq_singleton (h : '\n' ∉ line) (hn : line ≠ []) : lines line = [line] := by
  induction line with
  | nil => exact absurd rfl hn
  | cons c line ih =>
    obtain ⟨hc, hl⟩ := List.ne_and_not_mem_of_not_mem_cons h
    cases line with
    | nil => simp [lines, hc.symm]
    | cons d line => exact lines_cons_of_ne hc.symm (ih hl (by simp))

@[simp] theorem lines_eq_nil : lines cs = [] ↔ cs = [] := by
  cases cs with
  | nil => simp [lines]
  | cons c cs =>
    simp only [lines, reduceCtorEq, iff_false]
    split
    · simp
    · split <;> simp

theorem ne_nil_of_mem_lines (h : line ∈ lines cs) : line ≠ [] := by
  induction cs generalizing line with
  | nil => simp [lines] at h
  | cons c cs ih =>
    rw [lines] at h
    split at h
    · rcases List.mem_cons.1 h with rfl | h
      · simp
      · exact ih h
    · cases hl : lines cs with
      | nil => simp_all
      | cons first rest =>
        rw [hl] at h
        rcases List.mem_cons.1 h with rfl | h
        · simp
        · exact ih (by simp [hl, h])

/-- All lines of a text but the last one have ended. -/
theorem ended_of_mem_dropLast (h : line ∈ (lines cs).dropLast) : Ended line := by
  induction cs generalizing line with
  | nil => simp [lines] at h
  | cons c cs ih =>
    by_cases hc : c = '\n'
    · rw [lines, if_pos hc] at h
      by_cases hn : lines cs = []
      · simp [hn] at h
      · rw [List.dropLast_cons_of_ne_nil hn] at h
        rcases List.mem_cons.1 h with rfl | hm
        · exact .inr (by simp [hc])
        · exact ih hm
    · by_cases hn : cs = []
      · subst cs
        simp [lines, hc] at h
      · obtain ⟨first, rest, hl⟩ := List.exists_cons_of_ne_nil (mt lines_eq_nil.1 hn)
        have hf : first ≠ [] := ne_nil_of_mem_lines (by simp [hl] : first ∈ lines cs)
        rw [lines_cons_of_ne hc hl] at h
        rw [hl] at ih
        by_cases hr : rest = []
        · simp [hr] at h
        · rw [List.dropLast_cons_of_ne_nil hr] at h ih
          rcases List.mem_cons.1 h with rfl | hm
          · exact (ended_cons_iff hf).2 (ih List.mem_cons_self)
          · exact ih (List.mem_cons_of_mem _ hm)

/-- Lines do not reach over the end of a text that a line feed ends. -/
theorem lines_append (h : Ended cs) (ds : List Char) : lines (cs ++ ds) = lines cs ++ lines ds := by
  induction cs with
  | nil => rfl
  | cons c cs ih =>
    have ih := ih h.tail
    by_cases hc : c = '\n'
    · rw [List.cons_append, lines, if_pos hc, lines, if_pos hc, ih, List.cons_append]
    · have hn : cs ≠ [] := by
        rintro rfl
        simp [Ended, hc] at h
      obtain ⟨first, rest, hl⟩ := List.exists_cons_of_ne_nil (mt lines_eq_nil.1 hn)
      rw [lines_cons_of_ne hc hl, List.cons_append, List.cons_append]
      exact lines_cons_of_ne hc (by rw [ih, hl, List.cons_append])

/-- Ending a text ends its last line, and the others have ended already. -/
theorem lines_ended (cs : List Char) : lines (ended cs) = (lines cs).map ended := by
  induction cs with
  | nil => rfl
  | cons c cs ih =>
    by_cases hn : cs = []
    · subst cs
      by_cases hc : c = '\n' <;> simp [ended, Ended, lines, hc]
    · obtain ⟨first, rest, hl⟩ := List.exists_cons_of_ne_nil (mt lines_eq_nil.1 hn)
      have hf : first ≠ [] := ne_nil_of_mem_lines (by simp [hl] : first ∈ lines cs)
      rw [ended_cons hn]
      by_cases hc : c = '\n'
      · have he : ended [c] = [c] := by simp [ended, Ended, hc]
        rw [lines, if_pos hc, lines, if_pos hc, ih, List.map_cons, he]
      · rw [lines_cons_of_ne hc hl, List.map_cons, ended_cons hf]
        exact lines_cons_of_ne hc (by rw [ih, hl, List.map_cons])

theorem ended_flatten {texts : List (List Char)} (h : ∀ text ∈ texts, Ended text) :
    Ended texts.flatten := by
  induction texts with
  | nil => exact .inl rfl
  | cons text texts ih =>
    rcases ih fun text ht => h text (List.mem_cons_of_mem _ ht) with hr | hr
    · simpa [hr] using h text List.mem_cons_self
    · exact .inr (by simp [List.getLast?_append, hr])

theorem lines_flatten {texts : List (List Char)} (h : ∀ text ∈ texts, Ended text) :
    lines texts.flatten = texts.flatMap lines := by
  induction texts with
  | nil => rfl
  | cons text texts ih =>
    rw [List.flatten_cons, lines_append (h text List.mem_cons_self),
      ih fun text ht => h text (List.mem_cons_of_mem _ ht), List.flatMap_cons]

end ScriptHost.Text
