import Mathlib.Data.Set.Card
import ScriptHost.Proofs.FileName.Normal

/-! How many normal forms have one normal form in common, and how long they are. -/

namespace ScriptHost.FileName

variable {name : String}

/-- The name that has dots behind its drive, where another one has the drive alone. -/
def dotted (dots : List Char) (name : String) : String :=
  match name.toList with
  | drive :: ':' :: rest =>
    .ofList (drive :: ':' :: dots ++ if rest = [] then [] else '/' :: rest)
  | _ => name

/-- The names in normal form that a normal form stands for. -/
theorem eq_of_normalize (hn : ∃ spelling, normalize spelling = name) :
    name = normalize name ∨ name = dotted ['.'] (normalize name) ∨
      name = dotted up (normalize name) := by
  obtain ⟨spelling, rfl⟩ := hn
  rcases normalForm_normalForm spelling.toList with h | h
  · left
    simp [normalize, h]
  · right
    obtain ⟨drive, dots, more, -, hdots, hm, -, hj, hn⟩ := h
    have hn' : normalize (normalize spelling) = .ofList (drive :: ':' :: join more) := by
      rw [normalize, normalize, String.toList_ofList, hn]
    have hd : normalize spelling = dotted dots (normalize (normalize spelling)) := by
      rw [hn', normalize, hj]
      cases more with
      | nil => simp [dotted, join_cons]
      | cons first rest =>
        have hf := (hm.proper first List.mem_cons_self).ne_nil
        simp [dotted, join_cons, hf]
    rcases hdots with rfl | rfl
    · exact .inl hd
    · exact .inr hd

/-- A normal form whose own normal form has no drive is its own. -/
theorem eq_normalize_of_no_drive (hn : ∃ spelling, normalize spelling = name)
    (hd : ∀ drive rest, (normalize name).toList = drive :: ':' :: rest → drive.isAlpha = false) :
    name = normalize name := by
  obtain ⟨spelling, rfl⟩ := hn
  obtain h | ⟨drive, dots, more, ha, -, -, -, -, hj⟩ := normalForm_normalForm spelling.toList
  · simp [normalize, h]
  · have hnormal : (normalize (normalize spelling)).toList = drive :: ':' :: join more := by
      rw [normalize, normalize, String.toList_ofList, String.toList_ofList, hj]
    simp [hd drive _ hnormal] at ha

theorem encard_normalize_eq_le (target : String) :
    {name | (∃ spelling, normalize spelling = name) ∧ normalize name = target}.encard ≤ 3 := by
  have hs : {name | (∃ spelling, normalize spelling = name) ∧ normalize name = target} ⊆
      (({target, dotted ['.'] target, dotted up target} : Finset String) : Set String) := by
    rintro name ⟨hn, rfl⟩
    simpa using eq_of_normalize hn
  refine (Set.encard_le_encard hs).trans ?_
  rw [Set.encard_coe_eq_coe_finsetCard]
  exact_mod_cast Finset.card_le_three

theorem size_dotted_le {dots : List Char} (h : Text.byteLength dots ≤ 2) (name : String) :
    (dotted dots name).utf8ByteSize ≤ name.utf8ByteSize + 3 := by
  unfold dotted
  split
  · rename_i drive rest hl
    have hs : '/'.utf8Size = 1 := by decide
    rw [← Text.byteLength_toList name, hl, Text.byteLength_ofList]
    by_cases hr : rest = []
    · simp [hr]
      omega
    · simp [hr, hs]
      omega
  · omega

/-- A normal form is at most three bytes longer than its own normal form. -/
theorem size_le_of_normalize (hn : ∃ spelling, normalize spelling = name) :
    name.utf8ByteSize ≤ (normalize name).utf8ByteSize + 3 := by
  have hone := size_dotted_le (show Text.byteLength ['.'] ≤ 2 by decide) (normalize name)
  have htwo := size_dotted_le (show Text.byteLength up ≤ 2 by decide) (normalize name)
  rcases eq_of_normalize hn with h | h | h
  · rw [← h]
    omega
  · rw [← h] at hone
    exact hone
  · rw [← h] at htwo
    exact htwo

end ScriptHost.FileName
