import ScriptHost.Proofs.Disk.Growing
import ScriptHost.Proofs.FileName.Enclosing

/-! A path leads to the same directory without its idle segments. -/

namespace ScriptHost.Disk

open FileName

variable {disk other : Disk} {links : Nat} {name path : String} {names others : List String}
  {place target : Place} {spot : Spot}

/-- Whether a name stands for more than the directory that it is used in. -/
def isBusy (name : String) : Bool := name != "" && name != "."

theorem isBusy_eq_false_iff : isBusy name = false ↔ name = "" ∨ name = "." := by
  simp [isBusy, or_iff_not_imp_left]

theorem isBusy_ofList (segment : List Char) : isBusy (String.ofList segment) = !isIdle segment := by
  have hn : String.ofList segment = "" ↔ segment = [] := by
    rw [← String.toList_inj, String.toList_ofList]
    rfl
  have hd : String.ofList segment = "." ↔ segment = ['.'] := by
    rw [← String.toList_inj, String.toList_ofList]
    rfl
  simp [isBusy, isIdle, bne, hn, hd, beq_eq_decide]

theorem filter_steps (path : String) :
    (steps path).filter isBusy = (busySegments path.toList).map String.ofList := by
  have hb : (((path.toList.splitOn '/').filter (!·.isEmpty)).map String.ofList).filter isBusy =
      (busySegments path.toList).map String.ofList := by
    rw [List.filter_map, busySegments, List.filter_filter]
    refine congrArg (List.map String.ofList) (List.filter_congr fun segment _ => ?_)
    rw [Function.comp, isBusy_ofList]
    cases segment <;> simp [isIdle]
  unfold steps
  dsimp only
  split
  · rw [List.filter_append, hb]
    simp [isBusy]
  · exact hb

theorem Leads.skip (hi : ∀ name ∈ names, isBusy name = false)
    (h : Leads disk .look links others place spot) :
    Leads disk .look links (names ++ others) place spot := by
  induction names with
  | nil => exact h
  | cons name names ih =>
    obtain ⟨hfirst, hi⟩ := List.forall_mem_cons.1 hi
    exact .idle (isBusy_eq_false_iff.1 hfirst) (ih hi)

/-- Names lead to a directory if they are the same but for idle ones. -/
theorem Leads.respell (h : Leads disk .look links names place (.directory target))
    (he : others.filter isBusy = names.filter isBusy) :
    Leads disk .look links others place (.directory target) := by
  have hbusy {name : String} (hs : Sought name) : isBusy name = true := by
    simp [isBusy, hs.ne_empty, hs.ne_dot]
  generalize hspot : Spot.directory target = spot at h ⊢
  induction h generalizing others with
  | arrived =>
    have hi : ∀ name ∈ others, isBusy name = false := by
      simpa [List.filter_eq_nil_iff] using he
    exact List.append_nil others ▸ Leads.skip hi .arrived
  | idle hn next ih =>
    rw [List.filter_cons_of_neg (by simp [isBusy_eq_false_iff.2 hn])] at he
    exact ih he hspot
  | up next ih =>
    rw [List.filter_cons_of_pos (by decide)] at he
    obtain ⟨before, after, rfl, hi, -, ha⟩ := List.filter_eq_cons_iff.1 he
    exact Leads.skip (by simpa using hi) (.up (ih ha hspot))
  | enter hs hc hr hd next ih =>
    rw [List.filter_cons_of_pos (hbusy hs)] at he
    obtain ⟨before, after, rfl, hi, -, ha⟩ := List.filter_eq_cons_iff.1 he
    exact Leads.skip (by simpa using hi) (.enter hs (by simp) hr hd (ih ha hspot))
  | file hs hr hd => simp at hspot
  | missing hs hc hr hd hl => simp at hspot
  | link hs hp hr hd => simp at hspot
  | through hs hc hr hd hl next ih =>
    rw [List.filter_cons_of_pos (hbusy hs)] at he
    obtain ⟨before, after, rfl, hi, -, ha⟩ := List.filter_eq_cons_iff.1 he
    refine Leads.skip (by simpa using hi) (.through hs (by simp) hr hd (by simp) (ih ?_ hspot))
    rw [List.filter_append, List.filter_append, ha]

theorem origin_condensed (path : String) (place : Place) :
    origin (condensed path) place = origin path place := by
  simp only [origin, beq_iff_eq, head?_condensed]

theorem filter_steps_condensed (path : String) :
    (steps (condensed path)).filter isBusy = (steps path).filter isBusy := by
  rw [filter_steps, filter_steps, busySegments_condensed]

/-- A path that is not too long leads to a directory just when it does so without its idle
segments. -/
theorem isDirectory_condensed_iff (hb : busySegments path.toList ≠ [])
    (hs : path.utf8ByteSize ≤ maxPath) :
    disk.isDirectory (condensed path) = true ↔ disk.isDirectory path = true := by
  have hf : Followable (condensed path) ↔ Followable path := by
    constructor
    · intro h
      refine ⟨fun hm => h.whole (mem_condensed hm (by decide) (by decide)), ?_, hs⟩
      rintro rfl
      exact hb rfl
    · intro h
      refine ⟨fun hm => h.whole ((condensed_sublist path).subset hm), ?_,
        Nat.le_trans (size_condensed_le path) hs⟩
      intro he
      refine hb ?_
      rw [← busySegments_condensed, he]
      rfl
  rw [isDirectory_iff, isDirectory_iff, hf, origin_condensed]
  refine and_congr_right fun _ => exists_congr fun target => ⟨fun h => ?_, fun h => ?_⟩
  · exact h.respell (filter_steps_condensed path).symm
  · exact h.respell (filter_steps_condensed path)

end ScriptHost.Disk
