import ScriptHost.Proofs.FileName.Enclosing
import ScriptHost.Proofs.FileName.Placing

/-! Normal forms in two layers: segments that stand for no entry of a directory, and then the
entries that lead to the file. The directories of a name take the entries off one after another. -/

namespace ScriptHost.FileName

variable {segment last : List Char} {segments front downs : List (List Char)}
  {cs start rest : List Char} {path : String}

/-- A path whose segments first stand for no entry of a directory, and then each for one. -/
structure Layered (path : String) (front downs : List (List Char)) : Prop where
  split : path.toList.splitOn '/' = front ++ downs
  front : ∀ segment ∈ front, isIdle segment = true ∨ segment = up
  downs : ∀ segment ∈ downs, Proper segment ∧ segment ≠ up

theorem Layered.whole (h : Layered path front downs) : ∀ segment ∈ front ++ downs, '/' ∉ segment :=
  fun _ hs => not_mem_of_mem_splitOn (h.split ▸ hs)

theorem layered_join (hw : ∀ segment ∈ front, '/' ∉ segment)
    (hf : ∀ segment ∈ front, isIdle segment = true ∨ segment = up)
    (hd : ∀ segment ∈ downs, Proper segment ∧ segment ≠ up) (hn : downs ≠ []) :
    Layered (String.ofList (join (front ++ downs))) front downs where
  split := by
    rw [String.toList_ofList]
    refine splitOn_join_of_whole (fun segment hs => ?_) (by simp [hn])
    rcases List.mem_append.1 hs with hs | hs
    · exact hw segment hs
    · exact (hd segment hs).1.whole
  front := hf
  downs := hd

theorem enclosing_eq (h : Layered path front (downs ++ [last])) :
    enclosing path = enclosingOf (last :: (front ++ downs).reverse) := by
  rw [enclosing, h.split, ← List.append_assoc, List.reverse_append, List.reverse_singleton,
    List.singleton_append]

/-- The directory of a layered path is layered, and lies in the same directories. -/
theorem Layered.directory {inner : List Char}
    (h : Layered path front (downs ++ [inner] ++ [last])) :
    ∃ directory, Layered directory front (downs ++ [inner]) ∧
      enclosing path = directory :: enclosing directory := by
  have hdowns : ∀ segment ∈ downs ++ [inner], Proper segment ∧ segment ≠ up :=
    fun segment hs => h.downs segment (List.mem_append_left _ hs)
  have hd : Layered (String.ofList (join (front ++ (downs ++ [inner])))) front (downs ++ [inner]) :=
    layered_join (fun segment hs => h.whole segment (List.mem_append_left _ hs)) h.front hdowns
      (by simp)
  refine ⟨_, hd, ?_⟩
  have hinner : isIdle inner = false := (hdowns inner (by simp)).1.busy
  have hlast : isIdle last = false := (h.downs last (by simp)).1.busy
  have hreverse : (front ++ (downs ++ [inner])).reverse = inner :: (front ++ downs).reverse := by
    simp
  rw [enclosing_eq h, enclosing_eq hd, hreverse, enclosingOf, if_neg (by simp [hlast]),
    List.dropWhile_cons_of_neg (by simp [hinner]), if_neg (by simp), ← hreverse,
    List.reverse_reverse]

theorem enclosingOf_of_idle (h : ∀ segment ∈ segments, isIdle segment = true) :
    enclosingOf segments = [] := by
  induction segments with
  | nil => rfl
  | cons segment segments ih =>
    obtain ⟨hfirst, h⟩ := List.forall_mem_cons.1 h
    rw [enclosingOf, if_pos hfirst, ih h]

/-- Above its entries, a layered path lies in directories that stand for no entries, if in any. -/
theorem Layered.outermost (h : Layered path front [last]) :
    enclosing path = [] ∨ ∃ directory outer, enclosing path = directory :: outer ∧
      ∀ segment ∈ directory.toList.splitOn '/', isIdle segment = true ∨ segment = up := by
  have hlast : isIdle last = false := (h.downs last (by simp)).1.busy
  have hpath : Layered path front ([] ++ [last]) := h
  have heq := enclosing_eq hpath
  rw [List.append_nil, enclosingOf, if_neg (by simp [hlast])] at heq
  cases ha : front.reverse.dropWhile isIdle with
  | nil =>
    dsimp only at heq
    rw [ha, if_pos (by rfl), enclosingOf_of_idle (List.dropWhile_eq_nil_iff.1 ha)] at heq
    exact .inl heq
  | cons inner above =>
    dsimp only at heq
    rw [ha, if_neg (by simp)] at heq
    refine .inr ⟨_, _, heq, fun segment hs => ?_⟩
    have hfront : ∀ s ∈ (inner :: above).reverse, s ∈ front := by
      intro s hm
      rw [List.mem_reverse, ← ha] at hm
      exact List.mem_reverse.1 ((List.dropWhile_suffix _).subset hm)
    have hwhole : ∀ s ∈ (inner :: above).reverse, '/' ∉ s := fun s hm =>
      h.whole s (List.mem_append_left _ (hfront s hm))
    rw [String.toList_ofList, splitOn_join_of_whole hwhole (by simp)] at hs
    exact h.front segment (hfront segment hs)

theorem Normalized.plain (h : Normalized true segments) :
    ∀ segment ∈ segments, Proper segment ∧ segment ≠ up := by
  intro segment hs
  refine ⟨h.proper segment hs, ?_⟩
  rintro rfl
  exact h.rooted rfl hs

/-- The segments of a rooted name: those of its root, and those below it. A drive that is not
followed by a slash is part of the first segment below. -/
theorem Rooting.exists_layers (h : Rooting cs start rest) (hn : Normalized true segments)
    (hne : segments ≠ []) : ∃ front downs, (start ++ join segments).splitOn '/' = front ++ downs ∧
      downs ≠ [] ∧ (∀ segment ∈ front, isIdle segment = true ∨ segment = up) ∧
      ∀ segment ∈ downs, Proper segment ∧ segment ≠ up := by
  have hjoin := splitOn_join_of_whole (fun s hs => (hn.proper s hs).whole) hne
  cases h with
  | slash h =>
    refine ⟨[[]], segments, ?_, hne, by simp [isIdle], hn.plain⟩
    rw [List.singleton_append, splitOn_slash_cons, hjoin, List.singleton_append]
  | @server server _ h =>
    have hsplit : ('/' :: '/' :: server ++ ['/'] ++ join segments).splitOn '/' =
        [] :: [] :: server :: segments := by
      rw [List.append_assoc, List.cons_append, List.cons_append, List.singleton_append,
        splitOn_slash_cons, splitOn_slash_cons, List.splitOn_append_cons_self_of_not_mem h, hjoin]
    by_cases hs : isIdle server = true ∨ server = up
    · refine ⟨[[], [], server], segments, hsplit, hne, ?_, hn.plain⟩
      simpa [isIdle] using hs
    · obtain ⟨hi, hu⟩ := not_or.1 hs
      refine ⟨[[], []], server :: segments, hsplit, by simp, by simp [isIdle], ?_⟩
      exact List.forall_mem_cons.2 ⟨⟨⟨by simpa using hi, h⟩, hu⟩, hn.plain⟩
  | bare h =>
    refine ⟨[[], []], segments, ?_, hne, by simp [isIdle], hn.plain⟩
    rw [List.cons_append, List.singleton_append, splitOn_slash_cons, splitOn_slash_cons, hjoin]
    rfl
  | @drive drive path h =>
    have hw : '/' ∉ [drive, ':'] := by simpa using (ne_slash_of_isAlpha h).symm
    refine ⟨[], [drive, ':'] :: segments, ?_, by simp, by simp, ?_⟩
    · have hsplit := List.splitOn_append_cons_self_of_not_mem hw (join segments)
      rwa [hjoin] at hsplit
    · exact List.forall_mem_cons.2 ⟨⟨⟨by simp [isIdle], hw⟩, by simp [up]⟩, hn.plain⟩
  | @relative drive rest h hr =>
    obtain ⟨first, more, rfl⟩ := List.exists_cons_of_ne_nil hne
    obtain ⟨⟨hfirst, -⟩, hmore⟩ := List.forall_mem_cons.1 hn.plain
    have hw : '/' ∉ drive :: ':' :: first := by
      simpa [(ne_slash_of_isAlpha h).symm] using hfirst.whole
    have hplain : ∀ segment ∈ (drive :: ':' :: first) :: more, Proper segment ∧ segment ≠ up :=
      List.forall_mem_cons.2 ⟨⟨⟨by simp [isIdle], hw⟩, by simp [up]⟩, hmore⟩
    refine ⟨[], (drive :: ':' :: first) :: more, ?_, by simp, by simp, hplain⟩
    have hj : [drive, ':'] ++ join (first :: more) = join ((drive :: ':' :: first) :: more) := by
      rw [join_cons, join_cons]
      rfl
    rw [hj, splitOn_join_of_whole (fun s hs => (hplain s hs).1.whole) (by simp), List.nil_append]

/-- A normal form that ends with a segment which does not climb leads from segments that stand for
no entry to an entry. -/
theorem exists_layered_of_inside (h : inside (slashed cs) = segments ++ [last]) (hu : last ≠ up) :
    ∃ front downs entry, Layered (String.ofList (normalForm cs)) front (downs ++ [entry]) := by
  have hne : inside (slashed cs) ≠ [] := by simp [h]
  suffices hs : ∃ front downs, (normalForm cs).splitOn '/' = front ++ downs ∧ downs ≠ [] ∧
      (∀ segment ∈ front, isIdle segment = true ∨ segment = up) ∧
      ∀ segment ∈ downs, Proper segment ∧ segment ≠ up by
    obtain ⟨front, downs, hsplit, hn, hf, hd⟩ := hs
    refine ⟨front, downs.dropLast, downs.getLast hn, ?_⟩
    rw [List.dropLast_concat_getLast hn]
    exact ⟨by rwa [String.toList_ofList], hf, hd⟩
  rw [normalForm_eq]
  by_cases hr : root (slashed cs) = []
  · have hn : Normalized false (inside (slashed cs)) := by
      have := normalized_inside (slashed cs)
      rwa [hr] at this
    obtain ⟨count, hsettled⟩ : ∃ count, inside (slashed cs) =
        List.replicate count up ++ settled (inside (slashed cs)) :=
      ⟨_, eq_replicate_append_settled _⟩
    refine ⟨List.replicate count up, settled (inside (slashed cs)), ?_, ?_, ?_, hn.settled.plain⟩
    · rw [hr, List.nil_append, splitOn_join_of_whole (fun s hs => (hn.proper s hs).whole) hne,
        ← hsettled]
    · intro he
      rw [he, List.append_nil] at hsettled
      have hm : last ∈ List.replicate count up := by simp [← hsettled, h]
      exact hu (List.eq_of_mem_replicate hm)
    · exact fun segment hs => .inr (List.eq_of_mem_replicate hs)
  · have hs : (!(root (slashed cs)).isEmpty) = true := by simpa using hr
    exact (rooting_of_root_ne_nil hr).exists_layers (hs ▸ normalized_inside (slashed cs)) hne

end ScriptHost.FileName
