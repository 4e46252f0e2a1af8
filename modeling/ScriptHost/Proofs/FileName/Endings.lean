import ScriptHost.Proofs.FileName.Spellings
import ScriptHost.Target

/-! Endings of names: a normal form keeps the ending of its name, so that outputs and source maps
never have a name in common, and declaration files are such in every normal form. -/

namespace ScriptHost

namespace FileName

variable {ending cs rest segment : List Char} {segments : List (List Char)} {c : Char}
  {rooted : Bool}

/-- An ending does not reach over a character that is not in it. -/
theorem suffix_of_append (front : List Char) (h : ending <:+ front ++ rest)
    (hf : ∀ c, front.getLast? = some c → c ∉ ending) : ending <:+ rest := by
  obtain ⟨before, he⟩ := h
  rcases List.append_eq_append_iff.1 he with ⟨reach, hfront, hending⟩ | ⟨middle, -, hrest⟩
  · rcases List.eq_nil_or_concat reach with rfl | ⟨start, c, rfl⟩
    · exact hending ▸ List.suffix_rfl
    · have hl : front.getLast? = some c := by simp [hfront]
      exact (hf c hl (by simp [hending])).elim
  · exact ⟨middle, hrest.symm⟩

/-- What an ending has to be like to stand at the end of a plain segment. -/
structure Plain (ending : List Char) : Prop where
  long : 2 < ending.length
  slash : '/' ∉ ending
  backslash : '\\' ∉ ending
  colon : ':' ∉ ending

theorem suffix_slashed (h : ending <:+ cs) (hb : '\\' ∉ ending) : ending <:+ slashed cs := by
  obtain ⟨before, rfl⟩ := h
  have hs : slashed (before ++ ending) = slashed before ++ slashed ending := List.map_append
  rw [hs, slashed_of_not_mem hb]
  exact List.suffix_append _ _

theorem getLast?_root (h : (splitRoot cs).1.getLast? = some c) : c = '/' ∨ c = ':' := by
  rcases rooting_splitRoot cs with hr | hr
  · simp [hr] at h
  · generalize (splitRoot cs).1 = start at h hr
    generalize (splitRoot cs).2 = rest at hr
    cases hr with
    | slash => exact .inl (Option.some.inj h).symm
    | server => exact .inl (Option.some.inj (List.getLast?_concat.symm.trans h)).symm
    | bare => exact .inl (Option.some.inj h).symm
    | drive => exact .inl (Option.some.inj h).symm
    | relative => exact .inr (Option.some.inj h).symm

theorem join_concat (segments : List (List Char)) (segment : List Char) :
    ∃ front, join (segments ++ [segment]) = front ++ segment ∧
      ∀ c, front.getLast? = some c → c = '/' := by
  cases segments with
  | nil => exact ⟨[], by simp [join], by simp⟩
  | cons first more =>
    refine ⟨join (first :: more) ++ ['/'], ?_, by simp⟩
    simp [join_cons, List.flatMap_append]

theorem Plain.busy (he : Plain ending) (h : ending <:+ segment) : isIdle segment = false := by
  have hlong : 2 < segment.length := Nat.lt_of_lt_of_le he.long h.length_le
  rw [isIdle, Bool.or_eq_false_iff, beq_eq_false_iff_ne, beq_eq_false_iff_ne]
  constructor <;> rintro rfl <;> simp at hlong

theorem Plain.ne_up (he : Plain ending) (h : ending <:+ segment) : segment ≠ up := by
  have hlong : 2 < segment.length := Nat.lt_of_lt_of_le he.long h.length_le
  rintro rfl
  simp [up] at hlong

/-- The last segment stays when it has a plain ending. -/
theorem suffix_join_resolve (he : Plain ending) (h : ending <:+ rest) :
    ending <:+ join (resolve rooted rest) := by
  obtain ⟨segments, last, hs⟩ : ∃ segments last, rest.splitOn '/' = segments ++ [last] := by
    rcases List.eq_nil_or_concat (rest.splitOn '/') with hn | ⟨segments, last, hs⟩
    · exact (List.splitOn_ne_nil '/' rest hn).elim
    · exact ⟨segments, last, by simpa using hs⟩
  have hlast : ending <:+ last := by
    obtain ⟨front, hj, hf⟩ := join_concat segments last
    refine suffix_of_append front ?_ fun c hc => hf c hc ▸ he.slash
    rwa [← hj, ← hs, join, List.intercalate_splitOn]
  have hp (stack : List (List Char)) : push rooted stack last = last :: stack :=
    push_of_plain (he.busy hlast) (he.ne_up hlast)
  have hr : resolve rooted rest = (segments.foldl (push rooted) []).reverse ++ [last] := by
    rw [resolve, hs, List.foldl_append, List.foldl_cons, List.foldl_nil, hp, List.reverse_cons]
  obtain ⟨front, hj, -⟩ := join_concat (segments.foldl (push rooted) []).reverse last
  rw [hr, hj]
  exact hlast.trans (List.suffix_append _ _)

/-- A normal form keeps a plain ending. -/
theorem suffix_normalForm (he : Plain ending) (h : ending <:+ cs) : ending <:+ normalForm cs := by
  have hs : ending <:+ (splitRoot (slashed cs)).1 ++ (splitRoot (slashed cs)).2 := by
    rw [splitRoot_append]
    exact suffix_slashed h he.backslash
  have hrest : ending <:+ (splitRoot (slashed cs)).2 := by
    refine suffix_of_append _ hs fun c hc => ?_
    rcases getLast?_root hc with rfl | rfl
    · exact he.slash
    · exact he.colon
  exact (suffix_join_resolve he hrest).trans (List.suffix_append _ _)

theorem suffix_combined (he : Plain ending) (h : ending <:+ cs) (directory : List Char) :
    ending <:+ combined directory cs := by
  unfold combined
  split
  · exact suffix_normalForm he h
  · split
    · exact suffix_normalForm he (h.trans (List.suffix_append _ _))
    · exact suffix_normalForm he (h.trans ((List.suffix_cons _ _).trans (List.suffix_append _ _)))

theorem suffix_basePart (hs : '/' ∉ ending) (h : ending <:+ cs) : ending <:+ basePart cs := by
  obtain ⟨before, rfl⟩ := h
  rw [basePart, List.reverse_append,
    List.takeWhile_append_of_pos fun c hc => ne_slash_of_not_mem hs c (List.mem_reverse.1 hc),
    List.reverse_append, List.reverse_reverse]
  exact List.suffix_append _ _

/-- The ending of outputs. -/
def scriptEnding : List Char := ['.', 'j', 's']

theorem plain_scriptEnding : Plain scriptEnding := by
  constructor <;> decide

theorem suffix_scriptName (source : String) : scriptEnding <:+ (scriptName source).toList := by
  have h : (scriptName source).toList = _ ++ scriptEnding := String.toList_ofList
  exact h ▸ List.suffix_append _ _

theorem suffix_combine {relative : String} (h : scriptEnding <:+ relative.toList)
    (directory : String) : scriptEnding <:+ (combine directory relative).toList := by
  have hc : (combine directory relative).toList = combined directory.toList relative.toList :=
    String.toList_ofList
  exact hc ▸ suffix_combined plain_scriptEnding h _

theorem suffix_base {name : String} (h : scriptEnding <:+ name.toList) :
    scriptEnding <:+ (base name).toList := by
  have hb : (base name).toList = basePart name.toList := String.toList_ofList
  exact hb ▸ suffix_basePart plain_scriptEnding.slash h

theorem isDeclaration_iff (name : String) :
    isDeclaration name = true ↔ ['.', 'd', '.', 't', 's'] <:+ name.toList := by
  have he : ".d.ts".toList = ['.', 'd', '.', 't', 's'] := rfl
  rw [isDeclaration, withoutEnding?, Option.isSome_map, List.isSome_isPrefixOf?_eq_isPrefixOf,
    List.isPrefixOf_iff_prefix, List.reverse_prefix, he]

theorem isDeclaration_dotted (dots : List Char) {name : String} (h : isDeclaration name = true) :
    isDeclaration (dotted dots name) = true := by
  rw [isDeclaration_iff] at h
  unfold dotted
  split
  · rename_i drive rest hl
    rw [hl] at h
    have hrest : ['.', 'd', '.', 't', 's'] <:+ rest := by
      refine suffix_of_append [drive, ':'] h ?_
      intro c hc
      obtain rfl : ':' = c := by simpa using hc
      decide
    have hne : rest ≠ [] := by
      rintro rfl
      simp at hrest
    rw [isDeclaration_iff, String.toList_ofList, if_neg hne]
    exact hrest.trans ⟨drive :: ':' :: dots ++ ['/'], by simp⟩
  · exact (isDeclaration_iff name).2 h

/-- A normal form is that of a declaration file if its own normal form is. -/
theorem isDeclaration_of_normalize {name : String} (hn : ∃ spelling, normalize spelling = name)
    (h : isDeclaration (normalize name) = true) : isDeclaration name = true := by
  rcases eq_of_normalize hn with he | he | he
  · rwa [he]
  · rw [he]
    exact isDeclaration_dotted _ h
  · rw [he]
    exact isDeclaration_dotted _ h

end FileName

theorem suffix_nameFor (source : String) (outDir : Option String) :
    FileName.scriptEnding <:+ (Target.nameFor source outDir).toList := by
  have hs := FileName.suffix_scriptName source
  cases outDir with
  | none => exact hs
  | some directory =>
    by_cases hr : FileName.isRooted (FileName.scriptName source) = true
    · have hn : Target.nameFor source (some directory) =
          FileName.combine directory (FileName.base (FileName.scriptName source)) := if_pos hr
      exact hn ▸ FileName.suffix_combine (FileName.suffix_base hs) _
    · have hn : Target.nameFor source (some directory) =
          FileName.combine directory (FileName.scriptName source) := if_neg hr
      exact hn ▸ FileName.suffix_combine hs _

/-- No output has the name of a source map. -/
theorem nameFor_ne_append_map (source : String) (outDir : Option String) (name : String) :
    Target.nameFor source outDir ≠ name ++ ".map" := by
  intro h
  obtain ⟨before, hs⟩ := suffix_nameFor source outDir
  have hl := congrArg List.getLast? (hs.trans (congrArg String.toList h))
  simp [FileName.scriptEnding] at hl

end ScriptHost
