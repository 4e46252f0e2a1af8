import ScriptHost.Proofs.FileName.Normal

/-! Names without their idle segments: what is left is no longer than the name, starts as it does
and has its other segments. -/

namespace ScriptHost.FileName

variable {cs segment : List Char} {segments : List (List Char)} {c : Char} {path : String}

/-- The segments that are not idle. -/
def busySegments (cs : List Char) : List (List Char) := (cs.splitOn '/').filter (!isIdle ·)

theorem splitOn_slash_cons (cs : List Char) : ('/' :: cs).splitOn '/' = [] :: cs.splitOn '/' := by
  have h : ([] ++ '/' :: cs).splitOn '/' = _ := List.splitOn_append_cons_self [] cs
  rwa [List.nil_append, List.splitOn_nil] at h

theorem busySegments_slash_cons (cs : List Char) :
    busySegments ('/' :: cs) = busySegments cs := by
  rw [busySegments, splitOn_slash_cons]
  rfl

theorem proper_busySegments (cs : List Char) : ∀ segment ∈ busySegments cs, Proper segment := by
  intro segment h
  obtain ⟨hs, hb⟩ := List.mem_filter.1 h
  exact ⟨by simpa using hb, not_mem_of_mem_splitOn hs⟩

theorem splitOn_join_of_whole (h : ∀ segment ∈ segments, '/' ∉ segment) (hn : segments ≠ []) :
    (join segments).splitOn '/' = segments :=
  List.splitOn_intercalate '/' h hn

theorem busySegments_join (h : ∀ segment ∈ segments, Proper segment) :
    busySegments (join segments) = segments := by
  by_cases hn : segments = []
  · subst segments
    rfl
  · rw [busySegments, splitOn_join_of_whole (fun s hs => (h s hs).whole) hn]
    exact List.filter_eq_self.2 fun segment hs => by simp [(h segment hs).busy]

theorem flatMap_slash_sublist {others : List (List Char)} (h : segments.Sublist others) :
    (segments.flatMap ('/' :: ·)).Sublist (others.flatMap ('/' :: ·)) := by
  induction h with
  | slnil => exact .slnil
  | cons segment h ih => exact ih.trans (List.sublist_append_right _ _)
  | cons_cons segment h ih => exact ih.append_left _

theorem join_sublist {others : List (List Char)} (h : segments.Sublist others) :
    (join segments).Sublist (join others) := by
  induction h with
  | slnil => exact List.Sublist.refl _
  | @cons segments others first h ih =>
    cases segments with
    | nil => exact List.nil_sublist _
    | cons segment segments =>
      obtain ⟨next, more, rfl⟩ : ∃ next more, others = next :: more :=
        List.exists_cons_of_ne_nil (by rintro rfl; simp at h)
      rw [join_cons first, List.flatMap_cons, List.cons_append, ← join_cons]
      exact ih.trans ((List.sublist_cons_self _ _).trans (List.sublist_append_right _ _))
  | @cons_cons segments others first h ih =>
    rw [join_cons, join_cons]
    exact (flatMap_slash_sublist h).append_left _

theorem join_splitOn (cs : List Char) : join (cs.splitOn '/') = cs := List.intercalate_splitOn _

/-- What is left of a name: its slash at the start, and its segments that are not idle. -/
theorem toList_condensed (path : String) :
    (condensed path).toList = (if path.toList.head? = some '/' then ['/'] else []) ++
      join (busySegments path.toList) := by
  rw [condensed, String.toList_ofList]
  congr 1
  cases path.toList with
  | nil => rfl
  | cons c cs =>
    by_cases hc : c = '/' <;> simp [hc]

theorem head?_condensed (path : String) :
    (condensed path).toList.head? = some '/' ↔ path.toList.head? = some '/' := by
  rw [toList_condensed]
  by_cases h : path.toList.head? = some '/'
  · simp [h]
  · have hj := head?_join (proper_busySegments path.toList)
    simpa [h] using hj

theorem busySegments_condensed (path : String) :
    busySegments (condensed path).toList = busySegments path.toList := by
  rw [toList_condensed]
  have hj := busySegments_join (proper_busySegments path.toList)
  split
  · rw [List.singleton_append, busySegments_slash_cons, hj]
  · rw [List.nil_append, hj]

theorem condensed_sublist (path : String) : (condensed path).toList.Sublist path.toList := by
  rw [toList_condensed]
  split
  · rename_i h
    obtain ⟨rest, hr⟩ := List.head?_eq_some_iff.1 h
    rw [hr, busySegments_slash_cons]
    refine List.Sublist.cons_cons _ ?_
    conv_rhs => rw [← join_splitOn rest]
    exact join_sublist List.filter_sublist
  · conv_rhs => rw [← join_splitOn path.toList]
    exact join_sublist List.filter_sublist

theorem byteLength_le_of_sublist {others : List Char} (h : cs.Sublist others) :
    Text.byteLength cs ≤ Text.byteLength others := by
  induction h with
  | slnil => exact Nat.le_refl _
  | cons c h ih => exact Nat.le_trans ih (Nat.le_add_left _ _)
  | cons_cons c h ih => exact Nat.add_le_add_left ih _

theorem size_condensed_le (path : String) :
    (condensed path).utf8ByteSize ≤ path.utf8ByteSize := by
  rw [← Text.byteLength_toList, ← Text.byteLength_toList]
  exact byteLength_le_of_sublist (condensed_sublist path)

/-- No character is lost but slashes and the dots of idle segments. -/
theorem mem_condensed (hc : c ∈ path.toList) (hs : c ≠ '/') (hd : c ≠ '.') :
    c ∈ (condensed path).toList := by
  rw [toList_condensed]
  refine List.mem_append_right _ ?_
  rw [← join_splitOn path.toList] at hc
  obtain rfl | ⟨segment, hm, hc⟩ := eq_or_mem_of_mem_join hc
  · exact absurd rfl hs
  · refine mem_join_of_mem (List.mem_filter.2 ⟨hm, ?_⟩) hc
    have hidle : ¬ (segment = [] ∨ segment = ['.']) := by
      rintro (rfl | rfl)
      · simp at hc
      · exact hd (by simpa using hc)
    simpa [isIdle] using hidle

end ScriptHost.FileName
