import ScriptHost.Proofs.FileName.Grouping

/-! Where a name leads from segments that are given: it climbs out of some of them, and then goes
onward. -/

namespace ScriptHost.FileName

variable {cs : List Char} {segments stack plain : List (List Char)} {rooted : Bool} {count : Nat}

/-- Segments without those at the beginning that climb. -/
def settled (segments : List (List Char)) : List (List Char) := segments.dropWhile (· == up)

/-- How many segments a name climbs out of. -/
def climb (cs : List Char) : Nat := ((resolve false cs).takeWhile (· == up)).length

/-- The segments that a name enters once it has climbed. -/
def onward (cs : List Char) : List (List Char) := settled (resolve false cs)

theorem eq_replicate_append_settled (segments : List (List Char)) :
    segments = List.replicate (segments.takeWhile (· == up)).length up ++ settled segments := by
  have hu : ∀ segment ∈ segments.takeWhile (· == up), segment = up := fun segment hs => by
    simpa using List.mem_takeWhile_imp hs
  have ht : segments.takeWhile (· == up) =
      List.replicate (segments.takeWhile (· == up)).length up := List.eq_replicate_iff.2 ⟨rfl, hu⟩
  rw [← ht]
  exact List.takeWhile_append_dropWhile.symm

theorem resolve_eq_climb (cs : List Char) :
    resolve false cs = List.replicate (climb cs) up ++ onward cs :=
  eq_replicate_append_settled _

theorem Normalized.of_append_right {before after : List (List Char)}
    (h : Normalized rooted (before ++ after)) : Normalized rooted after where
  proper segment hs := h.proper segment (List.mem_append_right _ hs)
  climbing := (List.pairwise_append.1 h.climbing).2.1
  rooted hr hu := h.rooted hr (List.mem_append_right _ hu)

/-- Below the segments that climb, none climbs. -/
theorem Normalized.settled (h : Normalized rooted segments) : Normalized true (settled segments) := by
  have ha : Normalized rooted (FileName.settled segments) :=
    Normalized.of_append_right (eq_replicate_append_settled segments ▸ h)
  have hh := List.head?_dropWhile_not (· == up) segments
  refine ⟨ha.proper, ha.climbing, fun _ hu => ?_⟩
  unfold FileName.settled at ha hu
  generalize segments.dropWhile (· == up) = inner at ha hh hu
  cases inner with
  | nil => simp at hu
  | cons first more =>
    have hf : first ≠ up := by simpa using hh
    rcases List.mem_cons.1 hu with he | hm
    · exact hf he.symm
    · exact hf ((List.pairwise_cons.1 ha.climbing).1 up hm rfl)

theorem normalized_onward (cs : List Char) : Normalized true (onward cs) :=
  (normalized_resolve false cs).settled

/-- A name does to segments what its own normal form does to them. -/
theorem along_eq_foldl_resolve (segments : List (List Char)) (cs : List Char) :
    along rooted segments cs =
      ((resolve false cs).foldl (push rooted) segments.reverse).reverse := by
  rw [along, resolve, foldl_push_settled fun _ hs => not_mem_of_mem_splitOn hs]

theorem foldl_push_of_plain (h : Normalized true plain) :
    plain.foldl (push rooted) stack = plain.reverse ++ stack := by
  induction plain generalizing stack with
  | nil => rfl
  | cons first more ih =>
    have hf : first ≠ up := by
      rintro rfl
      exact h.rooted rfl List.mem_cons_self
    rw [List.foldl_cons, push_of_plain (h.proper first List.mem_cons_self).busy hf, ih h.tail,
      List.reverse_cons, List.append_assoc, List.singleton_append]

theorem push_up_nil_rooted : push true [] up = [] := rfl

theorem push_up_of_ups (count : Nat) :
    push false (List.replicate count up) up = List.replicate (count + 1) up := by
  cases count <;> rfl

/-- Climbing takes away the innermost segments, and stops at the root. -/
theorem foldl_push_up_rooted (h : up ∉ stack) (count : Nat) :
    (List.replicate count up).foldl (push true) stack = stack.drop count := by
  induction count generalizing stack with
  | zero => rfl
  | succ count ih =>
    rw [List.replicate_succ, List.foldl_cons]
    cases stack with
    | nil => rw [push_up_nil_rooted, ih h, List.drop_nil, List.drop_nil]
    | cons top below =>
      obtain ⟨ht, hb⟩ := List.ne_and_not_mem_of_not_mem_cons h
      rw [push_up_of_plain ht.symm, ih hb, List.drop_succ_cons]

theorem foldl_push_up_ups (outer count : Nat) :
    (List.replicate count up).foldl (push false) (List.replicate outer up) =
      List.replicate (outer + count) up := by
  induction count generalizing outer with
  | zero => rfl
  | succ count ih =>
    rw [List.replicate_succ, List.foldl_cons, push_up_of_ups, ih, Nat.add_assoc, Nat.add_comm 1]

/-- Without a root, climbing goes on above the segments. -/
theorem foldl_push_up_unrooted (h : up ∉ stack) (outer count : Nat) :
    (List.replicate count up).foldl (push false) (stack ++ List.replicate outer up) =
      stack.drop count ++ List.replicate (outer + (count - stack.length)) up := by
  induction count generalizing stack with
  | zero => simp
  | succ count ih =>
    cases stack with
    | nil =>
      rw [List.nil_append, foldl_push_up_ups]
      simp
    | cons top below =>
      obtain ⟨ht, hb⟩ := List.ne_and_not_mem_of_not_mem_cons h
      rw [List.replicate_succ, List.foldl_cons, List.cons_append, push_up_of_plain ht.symm, ih hb,
        List.drop_succ_cons, List.length_cons, Nat.add_sub_add_right]

/-- Below a root, a name leads out of as many segments as it climbs, or to the root, and onward. -/
theorem along_of_rooted (h : Normalized true segments) (cs : List Char) :
    along true segments cs = segments.take (segments.length - climb cs) ++ onward cs := by
  have hu : up ∉ segments.reverse := fun hm => h.rooted rfl (List.mem_reverse.1 hm)
  rw [along_eq_foldl_resolve, resolve_eq_climb, List.foldl_append, foldl_push_up_rooted hu,
    foldl_push_of_plain (normalized_onward cs), List.reverse_append, List.reverse_reverse,
    List.drop_reverse, List.reverse_reverse]

/-- Without a root, a name climbs on where there are no segments to climb out of. -/
theorem along_of_unrooted (h : Normalized true plain) (outer : Nat) (cs : List Char) :
    along false (List.replicate outer up ++ plain) cs =
      List.replicate (outer + (climb cs - plain.length)) up ++
        plain.take (plain.length - climb cs) ++ onward cs := by
  have hu : up ∉ plain.reverse := fun hm => h.rooted rfl (List.mem_reverse.1 hm)
  rw [along_eq_foldl_resolve, resolve_eq_climb, List.foldl_append, List.reverse_append,
    List.reverse_replicate, foldl_push_up_unrooted hu, foldl_push_of_plain (normalized_onward cs),
    List.reverse_append, List.reverse_append, List.reverse_reverse, List.reverse_replicate,
    List.drop_reverse, List.reverse_reverse, List.length_reverse]

end ScriptHost.FileName
