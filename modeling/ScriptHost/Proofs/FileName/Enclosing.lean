import ScriptHost.Proofs.FileName.Condensed

/-! The directories that a name lies in, as text: each is a beginning of the name that ends with a
segment which is not idle. -/

namespace ScriptHost.FileName

variable {segment : List Char} {segments before after outer : List (List Char)}
  {name directory : String}

theorem join_append_eq (hs : segments ≠ []) (more : List (List Char)) :
    join (segments ++ more) = join segments ++ more.flatMap ('/' :: ·) := by
  obtain ⟨first, rest, rfl⟩ := List.exists_cons_of_ne_nil hs
  rw [List.cons_append, join_cons, join_cons, List.flatMap_append, List.append_assoc]

theorem exists_of_mem_enclosingOf (h : directory ∈ enclosingOf segments) :
    ∃ before segment outer, segments = before ++ segment :: outer ∧ isIdle segment = false ∧
      directory = String.ofList (join (segment :: outer).reverse) := by
  induction segments with
  | nil => simp [enclosingOf] at h
  | cons first rest ih =>
    have hrest (hm : directory ∈ enclosingOf rest) : ∃ before segment outer,
        first :: rest = before ++ segment :: outer ∧ isIdle segment = false ∧
          directory = String.ofList (join (segment :: outer).reverse) := by
      obtain ⟨before, segment, outer, rfl, hi, hd⟩ := ih hm
      exact ⟨first :: before, segment, outer, rfl, hi, hd⟩
    rw [enclosingOf] at h
    split at h
    · exact hrest h
    · dsimp only at h
      split at h
      · exact hrest h
      · rename_i hne
        rcases List.mem_cons.1 h with hd | h
        · obtain ⟨segment, outer, ha⟩ :=
            List.exists_cons_of_ne_nil (by simpa using hne : rest.dropWhile isIdle ≠ [])
          have hi : isIdle segment = false := by
            have := List.head?_dropWhile_not isIdle rest
            simpa [ha] using this
          refine ⟨first :: rest.takeWhile isIdle, segment, outer, ?_, hi, ha ▸ hd⟩
          rw [List.cons_append, ← ha, List.takeWhile_append_dropWhile]
        · exact hrest h

/-- A directory that a name lies in is a beginning of the name, and not idle. -/
theorem prefix_of_mem_enclosing (h : directory ∈ enclosing name) :
    directory.toList <+: name.toList ∧ busySegments directory.toList ≠ [] := by
  obtain ⟨before, segment, outer, hs, hi, rfl⟩ := exists_of_mem_enclosingOf h
  have hsplit : name.toList.splitOn '/' = (segment :: outer).reverse ++ before.reverse := by
    rw [← List.reverse_append, ← hs, List.reverse_reverse]
  have hne : (segment :: outer).reverse ≠ [] := by simp
  rw [String.toList_ofList]
  constructor
  · rw [← join_splitOn name.toList, hsplit, join_append_eq hne]
    exact List.prefix_append _ _
  · have hwhole : ∀ s ∈ (segment :: outer).reverse, '/' ∉ s := fun s hm =>
      not_mem_of_mem_splitOn (hsplit ▸ List.mem_append_left _ hm)
    rw [busySegments, splitOn_join_of_whole hwhole hne]
    have hm : segment ∈ (segment :: outer).reverse := by simp
    exact List.ne_nil_of_mem (List.mem_filter.2 ⟨hm, by simpa using hi⟩)

end ScriptHost.FileName
