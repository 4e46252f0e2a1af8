import Mathlib.Data.List.Induction
import ScriptHost.FileName

/-! Segments as a normal form keeps them, and why they are kept once more. -/

namespace ScriptHost.FileName

variable {segment : List Char} {segments stack : List (List Char)} {rooted : Bool} {cs : List Char}
  {c : Char}

/-- The segment that climbs. -/
def up : List Char := ['.', '.']

/-- Whether a segment can stand in a normal form. -/
structure Proper (segment : List Char) : Prop where
  busy : isIdle segment = false
  whole : '/' ∉ segment

/-- Segments of a normal form: only others that climb stand before one that climbs, and none climbs
below a root. -/
structure Normalized (rooted : Bool) (segments : List (List Char)) : Prop where
  proper : ∀ segment ∈ segments, Proper segment
  climbing : segments.Pairwise fun outer inner => inner = up → outer = up
  rooted : rooted = true → up ∉ segments

theorem normalized_nil (rooted : Bool) : Normalized rooted [] := ⟨by simp, .nil, by simp⟩

theorem Normalized.of_append {before after : List (List Char)}
    (h : Normalized rooted (before ++ after)) : Normalized rooted before where
  proper segment hs := h.proper segment (List.mem_append_left _ hs)
  climbing := (List.pairwise_append.1 h.climbing).1
  rooted hr hu := h.rooted hr (List.mem_append_left _ hu)

theorem Normalized.tail (h : Normalized rooted (segment :: segments)) :
    Normalized rooted segments where
  proper s hs := h.proper s (List.mem_cons_of_mem _ hs)
  climbing := (List.pairwise_cons.1 h.climbing).2
  rooted hr hu := h.rooted hr (List.mem_cons_of_mem _ hu)

theorem Normalized.concat (h : Normalized rooted segments) (hp : Proper segment)
    (hu : segment = up → (∀ outer ∈ segments, outer = up) ∧ rooted = false) :
    Normalized rooted (segments ++ [segment]) where
  proper s hs := by
    rcases List.mem_append.1 hs with hs | hs
    · exact h.proper s hs
    · rw [List.mem_singleton.1 hs]
      exact hp
  climbing := by
    refine List.pairwise_append.2 ⟨h.climbing, List.pairwise_singleton _ _, ?_⟩
    intro outer ho inner hi hinner
    rw [List.mem_singleton] at hi
    exact (hu (hi ▸ hinner)).1 outer ho
  rooted hr hm := by
    rcases List.mem_append.1 hm with hm | hm
    · exact h.rooted hr hm
    · have hf := (hu (List.mem_singleton.1 hm).symm).2
      simp [hr] at hf

theorem push_of_plain (hi : isIdle segment = false) (hu : segment ≠ up) :
    push rooted stack segment = segment :: stack := by
  unfold push
  rw [if_neg (by simp [hi])]
  exact if_neg hu

/-- A new segment keeps a stack in normal form, whether it is added, removes one or is left out. -/
theorem Normalized.push (h : Normalized rooted stack.reverse) (hw : '/' ∉ segment) :
    Normalized rooted (push rooted stack segment).reverse := by
  unfold FileName.push
  by_cases hi : isIdle segment = true
  · rwa [if_pos hi]
  rw [if_neg hi]
  have hp : Proper segment := ⟨by simpa using hi, hw⟩
  by_cases hu : segment = ['.', '.']
  · rw [if_pos hu]
    cases stack with
    | nil =>
      cases rooted with
      | true => exact normalized_nil true
      | false => exact (normalized_nil false).concat hp fun _ => ⟨by simp, rfl⟩
    | cons top below =>
      rw [List.reverse_cons] at h
      by_cases ht : top = ['.', '.']
      · cases rooted with
        | true => exact absurd (by simp [ht, up]) (h.rooted rfl)
        | false =>
          simp only [ht, if_true, Bool.false_eq_true, if_false, List.reverse_cons]
          rw [ht] at h
          refine h.concat hp fun _ => ⟨fun outer ho => ?_, rfl⟩
          rcases List.mem_append.1 ho with ho | ho
          · exact (List.pairwise_append.1 h.climbing).2.2 outer ho _ List.mem_cons_self rfl
          · exact List.mem_singleton.1 ho
      · simp only [ht, if_false]
        exact h.of_append
  · rw [if_neg hu, List.reverse_cons]
    exact h.concat hp fun he => absurd he hu

theorem normalized_foldl (hw : ∀ segment ∈ segments, '/' ∉ segment)
    (h : Normalized rooted stack.reverse) :
    Normalized rooted (segments.foldl (push rooted) stack).reverse := by
  induction segments generalizing stack with
  | nil => exact h
  | cons segment segments ih =>
    exact ih (fun s hs => hw s (List.mem_cons_of_mem _ hs)) (h.push (hw segment List.mem_cons_self))

theorem not_mem_of_mem_splitOn (h : segment ∈ cs.splitOn c) : c ∉ segment := by
  rw [List.splitOn_eq_splitOnP] at h
  induction cs generalizing segment with
  | nil => simp_all
  | cons d ds ih =>
    rw [List.splitOnP_cons_eq_if_modifyHead] at h
    split at h
    · rcases List.mem_cons.1 h with rfl | h
      · simp
      · exact ih h
    · rename_i hd
      cases hs : ds.splitOnP (· == c) with
      | nil => simp [hs] at h
      | cons first rest =>
        rw [hs] at h ih
        rcases List.mem_cons.1 h with rfl | h
        · have hf : c ∉ first := ih List.mem_cons_self
          have hc : c ≠ d := fun he => hd (by simp [he])
          simp [hc, hf]
        · exact ih (List.mem_cons_of_mem _ h)

/-- The segments of a normal form are those of one. -/
theorem normalized_resolve (rooted : Bool) (cs : List Char) :
    Normalized rooted (resolve rooted cs) :=
  normalized_foldl (fun _ hs => not_mem_of_mem_splitOn hs) (normalized_nil rooted)

theorem push_of_normalized (h : Normalized rooted (segments ++ [segment])) :
    push rooted segments.reverse segment = segment :: segments.reverse := by
  have hp := h.proper segment (by simp)
  unfold push
  rw [hp.busy, if_neg (by simp)]
  by_cases hu : segment = ['.', '.']
  · have hf : rooted = false := by
      cases rooted with
      | true => exact absurd (by simp [hu, up]) (h.rooted rfl)
      | false => rfl
    rw [if_pos hu, hf]
    cases hs : segments.reverse with
    | nil => rfl
    | cons top below =>
      have ht : top = up := (List.pairwise_append.1 h.climbing).2.2 top
        (by rw [← List.mem_reverse, hs]; exact List.mem_cons_self) segment List.mem_cons_self hu
      simp [ht, up]
  · rw [if_neg hu]

theorem foldl_push_of_normalized (h : Normalized rooted segments) :
    segments.foldl (push rooted) [] = segments.reverse := by
  induction segments using List.reverseRecOn with
  | nil => rfl
  | append_singleton segments segment ih =>
    rw [List.foldl_append, ih h.of_append, List.foldl_cons, List.foldl_nil, push_of_normalized h,
      List.reverse_append]
    rfl

/-- Segments of a normal form are found again when they have been joined. -/
theorem resolve_join (h : Normalized rooted segments) :
    resolve rooted (join segments) = segments := by
  by_cases hn : segments = []
  · subst segments
    cases rooted <;> rfl
  · have hs : (join segments).splitOn '/' = segments :=
      List.splitOn_intercalate '/' (fun s hs => (h.proper s hs).whole) hn
    rw [resolve, hs, foldl_push_of_normalized h, List.reverse_reverse]


end ScriptHost.FileName
