import Mathlib.Data.List.TakeWhile
import ScriptHost.Proofs.FileName.Segments

/-! Normal forms of names, and the names whose normal form has another one. -/

namespace ScriptHost.FileName

/-- The roots of names and what follows them. -/
inductive Rooting : (cs start rest : List Char) → Prop where
  | slash {rest} (h : rest.head? ≠ some '/') : Rooting ('/' :: rest) ['/'] rest
  | server {server path} (h : '/' ∉ server) :
      Rooting ('/' :: '/' :: server ++ '/' :: path) ('/' :: '/' :: server ++ ['/']) path
  | bare {server} (h : '/' ∉ server) : Rooting ('/' :: '/' :: server) ['/', '/'] server
  | drive {drive path} (h : Char.isAlpha drive = true) :
      Rooting (drive :: ':' :: '/' :: path) [drive, ':', '/'] path
  | relative {drive rest} (h : Char.isAlpha drive = true) (hr : rest.head? ≠ some '/') :
      Rooting (drive :: ':' :: rest) [drive, ':'] rest

variable {segment cs start rest path : List Char} {segments more : List (List Char)}
  {rooted : Bool} {c : Char}

@[simp] theorem join_nil : join [] = [] := rfl

theorem join_cons (segment : List Char) (segments : List (List Char)) :
    join (segment :: segments) = segment ++ segments.flatMap ('/' :: ·) := by
  induction segments generalizing segment with
  | nil => simp [join]
  | cons next segments ih =>
    rw [List.flatMap_cons, List.cons_append, ← ih next]
    simp [join, List.intercalate_cons_cons]

theorem mem_join_of_mem (hs : segment ∈ segments) (hc : c ∈ segment) : c ∈ join segments := by
  cases segments with
  | nil => simp at hs
  | cons first more =>
    rw [join_cons]
    rcases List.mem_cons.1 hs with rfl | hs
    · exact List.mem_append_left _ hc
    · exact List.mem_append_right _ (List.mem_flatMap.2 ⟨segment, hs, List.mem_cons_of_mem _ hc⟩)

theorem eq_or_mem_of_mem_join (h : c ∈ join segments) :
    c = '/' ∨ ∃ segment ∈ segments, c ∈ segment := by
  cases segments with
  | nil => simp at h
  | cons first more =>
    rw [join_cons] at h
    rcases List.mem_append.1 h with h | h
    · exact .inr ⟨first, List.mem_cons_self, h⟩
    · obtain ⟨segment, hs, hc⟩ := List.mem_flatMap.1 h
      rcases List.mem_cons.1 hc with rfl | hc
      · exact .inl rfl
      · exact .inr ⟨segment, List.mem_cons_of_mem _ hs, hc⟩

theorem mem_of_mem_push {stack : List (List Char)} {new : List Char}
    (h : segment ∈ push rooted stack new) : segment ∈ stack ∨ segment = new := by
  unfold push at h
  split at h
  · exact .inl h
  · split at h
    · split at h
      · split at h
        · split at h
          · exact .inl h
          · exact (List.mem_cons.1 h).symm
        · exact .inl (List.mem_cons_of_mem _ h)
      · split at h
        · simp at h
        · exact .inr (List.mem_singleton.1 h)
    · exact (List.mem_cons.1 h).symm

theorem mem_of_mem_resolve (h : segment ∈ resolve rooted cs) : segment ∈ cs.splitOn '/' := by
  have hf : ∀ (segments stack : List (List Char)), segment ∈ segments.foldl (push rooted) stack →
      segment ∈ stack ∨ segment ∈ segments := by
    intro segments
    induction segments with
    | nil => exact fun _ h => .inl h
    | cons first segments ih =>
      intro stack h
      rcases ih _ h with h | h
      · rcases mem_of_mem_push h with h | rfl
        · exact .inl h
        · exact .inr List.mem_cons_self
      · exact .inr (List.mem_cons_of_mem _ h)
  rcases hf _ [] (List.mem_reverse.1 h) with h | h
  · simp at h
  · exact h

theorem mem_of_mem_segment (hs : segment ∈ resolve rooted cs) (hc : c ∈ segment) : c ∈ cs := by
  have hm := mem_join_of_mem (mem_of_mem_resolve hs) hc
  rwa [join, List.intercalate_splitOn] at hm

theorem eq_or_mem_of_mem_normalForm (h : c ∈ normalForm cs) : c = '/' ∨ c ∈ slashed cs := by
  have hs := splitRoot_append (slashed cs)
  rcases List.mem_append.1 (h : c ∈ (splitRoot (slashed cs)).1 ++ join _) with h | h
  · rw [← hs]
    exact .inr (List.mem_append_left _ h)
  · rcases eq_or_mem_of_mem_join h with h | ⟨segment, hm, hc⟩
    · exact .inl h
    · rw [← hs]
      exact .inr (List.mem_append_right _ (mem_of_mem_segment hm hc))

theorem backslash_not_mem_slashed (cs : List Char) : '\\' ∉ slashed cs := by
  intro h
  obtain ⟨c, -, hc⟩ := List.mem_map.1 h
  by_cases he : c = '\\'
  · simp [he] at hc
  · rw [if_neg he] at hc
    exact he hc

theorem slashed_of_not_mem (h : '\\' ∉ cs) : slashed cs = cs := by
  refine (List.map_congr_left fun c hc => ?_).trans (List.map_id cs)
  have hne : c ≠ '\\' := by
    rintro rfl
    exact h hc
  exact if_neg hne

@[simp] theorem slashed_normalForm (cs : List Char) : slashed (normalForm cs) = normalForm cs := by
  refine slashed_of_not_mem fun h => ?_
  rcases eq_or_mem_of_mem_normalForm h with h | h
  · simp at h
  · exact backslash_not_mem_slashed cs h

theorem ne_slash_of_isAlpha (h : c.isAlpha = true) : c ≠ '/' := by
  rintro rfl
  exact absurd h (by decide)

theorem ne_slash_of_not_mem (h : '/' ∉ cs) : ∀ c ∈ cs, (c != '/') = true := by
  intro c hc
  rw [bne_iff_ne]
  rintro rfl
  exact h hc

theorem splitRoot_of_rooting (h : Rooting cs start rest) : splitRoot cs = (start, rest) := by
  cases h with
  | slash h =>
    cases rest with
    | nil => rfl
    | cons c rest =>
      have hc : c ≠ '/' := by simpa using h
      simp [splitRoot, hc]
  | @server server _ h =>
    have hw := ne_slash_of_not_mem h
    have hd : (server ++ '/' :: rest).dropWhile (· != '/') = '/' :: rest := by
      rw [List.dropWhile_append_of_pos hw]
      rfl
    have ht : (server ++ '/' :: rest).takeWhile (· != '/') = server := by
      rw [List.takeWhile_append_of_pos hw]
      simp
    simp only [List.cons_append, splitRoot, hd, ht]
  | bare h =>
    have hd : rest.dropWhile (· != '/') = [] :=
      List.dropWhile_eq_nil_iff.2 (ne_slash_of_not_mem h)
    simp only [splitRoot, hd]
  | drive h => simp [splitRoot, h, ne_slash_of_isAlpha h]
  | relative h hr =>
    cases rest with
    | nil => simp [splitRoot, h, ne_slash_of_isAlpha h]
    | cons c rest =>
      have hc : c ≠ '/' := by simpa using hr
      simp [splitRoot, h, hc, ne_slash_of_isAlpha h]

theorem rooting_splitRoot (cs : List Char) :
    splitRoot cs = ([], cs) ∨ Rooting cs (splitRoot cs).1 (splitRoot cs).2 := by
  unfold splitRoot
  split
  · rename_i rest
    have hs := List.takeWhile_append_dropWhile (p := (· != '/')) (l := rest)
    split
    · rename_i hd
      exact .inr (.bare fun hm => by simpa using List.dropWhile_eq_nil_iff.1 hd _ hm)
    · rename_i c path hd
      have hc : c = '/' := by
        have hh := List.head?_dropWhile_not (· != '/') rest
        simpa [hd] using hh
      have hw : '/' ∉ rest.takeWhile (· != '/') := fun hm => by
        simpa using List.mem_takeWhile_imp hm
      rw [hd, hc] at hs
      have hr : Rooting ('/' :: '/' :: rest.takeWhile (· != '/') ++ '/' :: path) _ path :=
        .server hw
      simp only [List.cons_append, hs] at hr
      exact .inr hr
  · rename_i rest hn
    refine .inr (.slash fun hh => ?_)
    obtain ⟨tail, rfl⟩ := List.head?_eq_some_iff.1 hh
    exact hn tail rfl
  · split
    · rename_i ha
      split
      · exact .inr (.drive ha)
      · rename_i hn
        refine .inr (.relative ha fun hh => ?_)
        obtain ⟨tail, rfl⟩ := List.head?_eq_some_iff.1 hh
        exact hn tail rfl
    · exact .inl rfl
  · exact .inl rfl

theorem Proper.ne_nil (h : Proper segment) : segment ≠ [] := by
  rintro rfl
  exact absurd h.busy (by decide)

theorem head?_join (h : ∀ segment ∈ segments, Proper segment) :
    (join segments).head? ≠ some '/' := by
  cases segments with
  | nil => simp
  | cons first more =>
    have hp := h first List.mem_cons_self
    obtain ⟨c, tail, rfl⟩ := List.exists_cons_of_ne_nil hp.ne_nil
    rw [join_cons]
    intro hh
    obtain rfl : c = '/' := by simpa using hh
    exact hp.whole List.mem_cons_self

theorem Rooting.start_ne_nil (h : Rooting cs start rest) : start ≠ [] := by
  cases h <;> simp

theorem normalForm_of_rooting (h : Rooting (slashed cs) start rest) :
    normalForm cs = start ++ join (resolve true rest) := by
  have hs : start.isEmpty = false := by simpa using h.start_ne_nil
  simp [normalForm, splitRoot_of_rooting h, hs]

theorem normalForm_of_unrooted (h : splitRoot (slashed cs) = ([], slashed cs)) :
    normalForm cs = join (resolve false (slashed cs)) := by
  simp [normalForm, h]

theorem push_nil (rooted : Bool) (segment : List Char) :
    push rooted [] segment = [] ∨ push rooted [] segment = [segment] := by
  unfold push
  split
  · exact .inl rfl
  · split
    · cases rooted
      · exact .inr rfl
      · exact .inl rfl
    · exact .inr rfl

theorem slash_not_mem_join_resolve (h : '/' ∉ cs) : '/' ∉ join (resolve true cs) := by
  rw [resolve, List.splitOn_eq_singleton h, List.foldl_cons, List.foldl_nil]
  rcases push_nil true cs with hp | hp
  · simp [hp]
  · simpa [hp, join] using h

/-- A rooted normal form has the root that its name had. -/
theorem Rooting.rejoin (h : Rooting cs start rest) :
    Rooting (start ++ join (resolve true rest)) start (join (resolve true rest)) := by
  have hh : (join (resolve true rest)).head? ≠ some '/' :=
    head?_join (normalized_resolve true rest).proper
  cases h with
  | slash => exact .slash hh
  | @server server _ h =>
    have hr : Rooting ('/' :: '/' :: server ++ '/' :: join (resolve true rest)) _ _ := .server h
    simpa using hr
  | bare h => exact .bare (slash_not_mem_join_resolve h)
  | drive h => exact .drive h
  | relative h => exact .relative h hh

theorem normalForm_of_rooted (h : Rooting (slashed cs) start rest) :
    normalForm (normalForm cs) = normalForm cs := by
  have hn := normalForm_of_rooting h
  have hr : Rooting (slashed (normalForm cs)) start (join (resolve true rest)) := by
    rw [slashed_normalForm, hn]
    exact h.rejoin
  rw [normalForm_of_rooting hr, resolve_join (normalized_resolve true rest), hn]

theorem Rooting.drive_of_ne_slash {ds : List Char} (h : Rooting (c :: ds) start rest)
    (hc : c ≠ '/') :
    c.isAlpha = true ∧ ((ds = ':' :: '/' :: rest ∧ start = [c, ':', '/']) ∨
      (ds = ':' :: rest ∧ start = [c, ':'] ∧ rest.head? ≠ some '/')) := by
  cases h with
  | slash => exact absurd rfl hc
  | server => exact absurd rfl hc
  | bare => exact absurd rfl hc
  | drive h => exact ⟨h, .inl ⟨rfl, rfl⟩⟩
  | relative h hr => exact ⟨h, .inr ⟨rfl, rfl, hr⟩⟩

theorem resolve_join_cons (h : Normalized true more) (hw : '/' ∉ segment)
    (hp : push true [] segment = []) : resolve true (join (segment :: more)) = more := by
  have hs : (join (segment :: more)).splitOn '/' = segment :: more := by
    refine List.splitOn_intercalate '/' (fun s hs => ?_) (by simp)
    rcases List.mem_cons.1 hs with rfl | hs
    · exact hw
    · exact (h.proper s hs).whole
  rw [resolve, hs, List.foldl_cons, hp, foldl_push_of_normalized h, List.reverse_reverse]

theorem Normalized.below (h : Normalized false (segment :: more)) (hu : segment ≠ up) :
    Normalized true more where
  proper := h.tail.proper
  climbing := h.tail.climbing
  rooted _ hm := hu ((List.pairwise_cons.1 h.climbing).1 up hm rfl)

theorem Normalized.cons_of_ne_up (h : Normalized true more) (hp : Proper segment)
    (hu : segment ≠ up) : Normalized true (segment :: more) where
  proper s hs := by
    rcases List.mem_cons.1 hs with rfl | hs
    · exact hp
    · exact h.proper s hs
  climbing := List.pairwise_cons.2
    ⟨fun inner hi he => absurd (he ▸ hi) (h.rooted rfl), h.climbing⟩
  rooted _ hm := by
    rcases List.mem_cons.1 hm with he | hm
    · exact hu he.symm
    · exact h.rooted rfl hm

theorem push_nil_eq_nil : push true [] segment = [] ↔ isIdle segment = true ∨ segment = up := by
  unfold push up
  by_cases hi : isIdle segment = true <;> by_cases hu : segment = ['.', '.'] <;> simp [hi, hu]

theorem flatMap_slash (h : more ≠ []) : more.flatMap ('/' :: ·) = '/' :: join more := by
  obtain ⟨first, rest, rfl⟩ := List.exists_cons_of_ne_nil h
  rw [join_cons, List.flatMap_cons, List.cons_append]

theorem normalForm_of_drive_root {drive : Char} (ha : Char.isAlpha drive = true)
    (hm : Normalized true more) (hb : '\\' ∉ join ([drive, ':'] :: more)) :
    normalForm (join ([drive, ':'] :: more)) = join ([drive, ':'] :: more) := by
  have hs := slashed_of_not_mem hb
  by_cases hn : more = []
  · subst more
    have hr : Rooting (slashed (join [[drive, ':']])) [drive, ':'] [] := by
      rw [hs]
      exact .relative ha (by simp)
    rw [normalForm_of_rooting hr]
    rfl
  · have hj : join ([drive, ':'] :: more) = drive :: ':' :: '/' :: join more := by
      rw [join_cons, flatMap_slash hn]
      rfl
    have hr : Rooting (slashed (join ([drive, ':'] :: more))) [drive, ':', '/'] (join more) := by
      rw [hs, hj]
      exact .drive ha
    rw [normalForm_of_rooting hr, resolve_join hm, hj]
    rfl

theorem rooting_drive_join {drive : Char} {dots : List Char} (ha : Char.isAlpha drive = true)
    (hw : '/' ∉ dots) (hn : dots ≠ []) (more : List (List Char)) :
    Rooting (join ((drive :: ':' :: dots) :: more)) [drive, ':'] (join (dots :: more)) := by
  have hj : join ((drive :: ':' :: dots) :: more) = drive :: ':' :: join (dots :: more) := by
    rw [join_cons, join_cons, List.cons_append, List.cons_append]
  have hh : (join (dots :: more)).head? ≠ some '/' := by
    obtain ⟨d, ds, rfl⟩ := List.exists_cons_of_ne_nil hn
    rw [join_cons]
    intro hd
    obtain rfl : d = '/' := by simpa using hd
    exact hw List.mem_cons_self
  rw [hj]
  exact .relative ha hh

/-- Dots behind a drive are dropped when they are read as a segment below the drive. -/
theorem normalForm_of_dotted {drive : Char} {dots : List Char} (ha : Char.isAlpha drive = true)
    (hd : dots = ['.'] ∨ dots = up) (hm : Normalized true more)
    (hb : '\\' ∉ join ((drive :: ':' :: dots) :: more)) :
    normalForm (join ((drive :: ':' :: dots) :: more)) = drive :: ':' :: join more := by
  have hn : dots ≠ [] := by rcases hd with rfl | rfl <;> simp [up]
  have hw : '/' ∉ dots := by rcases hd with rfl | rfl <;> simp [up]
  have hp : push true [] dots = [] := push_nil_eq_nil.2 (hd.imp_left fun h => by rw [h]; rfl)
  have hr := rooting_drive_join ha hw hn more
  rw [← slashed_of_not_mem hb] at hr
  rw [normalForm_of_rooting hr, resolve_join_cons hm hw hp]
  rfl

theorem normalForm_of_drive {drive : Char} {dots : List Char} (ha : Char.isAlpha drive = true)
    (hw : '/' ∉ dots) (hm : Normalized true more)
    (hb : '\\' ∉ join ((drive :: ':' :: dots) :: more)) :
    normalForm (join ((drive :: ':' :: dots) :: more)) = join ((drive :: ':' :: dots) :: more) ∨
      (dots = ['.'] ∨ dots = up) ∧
        normalForm (join ((drive :: ':' :: dots) :: more)) = drive :: ':' :: join more := by
  by_cases hn : dots = []
  · subst dots
    exact .inl (normalForm_of_drive_root ha hm hb)
  by_cases hd : dots = ['.'] ∨ dots = up
  · exact .inr ⟨hd, normalForm_of_dotted ha hd hm hb⟩
  · left
    obtain ⟨hone, hup⟩ := not_or.1 hd
    have hi : isIdle dots = false := by simp [isIdle, hn, hone]
    have hr := rooting_drive_join ha hw hn more
    rw [← slashed_of_not_mem hb] at hr
    rw [normalForm_of_rooting hr, resolve_join (hm.cons_of_ne_up ⟨hi, hw⟩ hup), join_cons, join_cons]
    rfl

/-- Joined segments without a root are read with one when the first begins like a drive. That makes
a difference only when dots stand behind the drive. -/
theorem normalForm_join (h : Normalized false segments) (hb : '\\' ∉ join segments) :
    normalForm (join segments) = join segments ∨
      ∃ drive dots more, Char.isAlpha drive = true ∧ (dots = ['.'] ∨ dots = up) ∧
        Normalized true more ∧ segments = (drive :: ':' :: dots) :: more ∧
        normalForm (join segments) = drive :: ':' :: join more := by
  have hslashed : slashed (join segments) = join segments := slashed_of_not_mem hb
  rcases rooting_splitRoot (join segments) with hr | hr
  · left
    rw [normalForm_of_unrooted (by rw [hslashed, hr]), hslashed, resolve_join h]
  cases segments with
  | nil => exact .inl rfl
  | cons first more =>
    have hp := h.proper first List.mem_cons_self
    obtain ⟨drive, tail, rfl⟩ := List.exists_cons_of_ne_nil hp.ne_nil
    have hd : drive ≠ '/' := by
      rintro rfl
      exact hp.whole List.mem_cons_self
    generalize (splitRoot _).1 = start at hr
    generalize (splitRoot _).2 = rest at hr
    rw [join_cons, List.cons_append] at hr
    obtain ⟨ha, hshape⟩ := hr.drive_of_ne_slash hd
    obtain ⟨dots, rfl⟩ : ∃ dots, tail = ':' :: dots := by
      cases tail with
      | nil => cases more <;> rcases hshape with ⟨h, -⟩ | ⟨h, -⟩ <;> simp at h
      | cons t dots =>
        obtain rfl : t = ':' := by
          rcases hshape with ⟨h, -⟩ | ⟨h, -⟩ <;> exact (List.cons.inj h).1
        exact ⟨dots, rfl⟩
    have hw : '/' ∉ dots := fun hm => hp.whole (by simp [hm])
    have hm : Normalized true more := h.below (by simp [up])
    rcases normalForm_of_drive ha hw hm hb with hj | ⟨hdots, hj⟩
    · exact .inl hj
    · exact .inr ⟨drive, dots, more, ha, hdots, hm, rfl, hj⟩

/-- A normal form is its own, unless it has no root and its first segment is a drive with one or two
dots behind it. -/
theorem normalForm_normalForm (cs : List Char) :
    normalForm (normalForm cs) = normalForm cs ∨
      ∃ drive dots more, Char.isAlpha drive = true ∧ (dots = ['.'] ∨ dots = up) ∧
        Normalized true more ∧ root (slashed cs) = [] ∧
        normalForm cs = join ((drive :: ':' :: dots) :: more) ∧
        normalForm (normalForm cs) = drive :: ':' :: join more := by
  rcases rooting_splitRoot (slashed cs) with hr | hr
  · have hn := normalForm_of_unrooted hr
    have hb : '\\' ∉ join (resolve false (slashed cs)) := by
      rw [← hn, ← slashed_normalForm]
      exact backslash_not_mem_slashed _
    rw [hn]
    rcases normalForm_join (normalized_resolve false _) hb with hj | hj
    · exact .inl hj
    · obtain ⟨drive, dots, more, ha, hdots, hm, hs, hj⟩ := hj
      exact .inr ⟨drive, dots, more, ha, hdots, hm, by rw [root, hr], by rw [hs], hj⟩
  · exact .inl (normalForm_of_rooted hr)

/-- The first segment of a name: what stands before its first slash. -/
def firstSegment (name : String) : List Char := name.toList.takeWhile (· != '/')

/-- Whether a segment is a drive with one dot or two behind it, and nothing more. -/
inductive DottedDrive : List Char → Prop
  | one {drive : Char} (h : drive.isAlpha = true) : DottedDrive [drive, ':', '.']
  | two {drive : Char} (h : drive.isAlpha = true) : DottedDrive [drive, ':', '.', '.']

theorem dottedDrive_iff : DottedDrive segment ↔ ∃ drive dots, Char.isAlpha drive = true ∧
    (dots = ['.'] ∨ dots = up) ∧ segment = drive :: ':' :: dots := by
  constructor
  · rintro (h | h)
    · exact ⟨_, ['.'], h, .inl rfl, rfl⟩
    · exact ⟨_, up, h, .inr rfl, rfl⟩
  · rintro ⟨drive, dots, h, rfl | rfl, rfl⟩
    · exact .one h
    · exact .two h

theorem takeWhile_join (hw : '/' ∉ segment) :
    (join (segment :: more)).takeWhile (· != '/') = segment := by
  rw [join_cons, List.takeWhile_append_of_pos (ne_slash_of_not_mem hw)]
  cases more with
  | nil => simp
  | cons next more => simp

/-- A normal form changes once more if it has no root and begins with a dotted drive: the dots go.
-/
theorem normalForm_ne_of_dottedDrive (hr : root (slashed cs) = [])
    (hd : DottedDrive ((normalForm cs).takeWhile (· != '/'))) :
    normalForm (normalForm cs) ≠ normalForm cs := by
  have hsplit : splitRoot (slashed cs) = ([], slashed cs) :=
    (rooting_splitRoot (slashed cs)).resolve_right fun h => h.start_ne_nil hr
  have hform := normalForm_of_unrooted hsplit
  have hnormal := normalized_resolve false (slashed cs)
  have hb : '\\' ∉ normalForm cs := slashed_normalForm cs ▸ backslash_not_mem_slashed (normalForm cs)
  rw [hform] at hd hb ⊢
  generalize resolve false (slashed cs) = segments at hd hb hnormal
  obtain ⟨drive, dots, ha, hdots, hfirst⟩ := dottedDrive_iff.1 hd
  cases segments with
  | nil => simp at hfirst
  | cons first more =>
    rw [takeWhile_join (hnormal.proper first List.mem_cons_self).whole] at hfirst
    subst first
    have hm : Normalized true more := hnormal.below (by simp [up])
    rw [normalForm_of_dotted ha hdots hm hb]
    intro he
    have hl := congrArg List.length he
    rcases hdots with rfl | rfl <;> cases more <;> simp [join_cons, up] at hl

/-- A second normal form is its own. -/
theorem normalForm_twice (cs : List Char) :
    normalForm (normalForm (normalForm cs)) = normalForm (normalForm cs) := by
  rcases normalForm_normalForm cs with h | h
  · rw [h, h]
  · obtain ⟨drive, dots, more, ha, -, hm, -, -, hn⟩ := h
    have hr : Rooting (slashed (drive :: ':' :: join more)) [drive, ':'] (join more) := by
      rw [← hn, slashed_normalForm, hn]
      exact .relative ha (head?_join hm.proper)
    rw [hn, normalForm_of_rooting hr, resolve_join hm]
    rfl

theorem mem_slashed_of_ne (h : c ∈ slashed cs) (hc : c ≠ '/') : c ∈ cs := by
  obtain ⟨d, hd, rfl⟩ := List.mem_map.1 h
  by_cases he : d = '\\'
  · simp [he] at hc
  · rwa [if_neg he]

/-- Without a colon there is no drive, and a normal form is its own. -/
theorem normalForm_of_no_colon (h : ':' ∉ cs) : normalForm (normalForm cs) = normalForm cs := by
  rcases normalForm_normalForm cs with hn | hn
  · exact hn
  · obtain ⟨drive, dots, more, -, -, -, -, hj, -⟩ := hn
    have hm : ':' ∈ normalForm cs := by
      rw [hj]
      exact mem_join_of_mem List.mem_cons_self (List.mem_cons_of_mem _ List.mem_cons_self)
    rcases eq_or_mem_of_mem_normalForm hm with hs | hs
    · simp at hs
    · exact (h (mem_slashed_of_ne hs (by decide))).elim

variable {name : String}

theorem normalize_of_no_colon (h : ':' ∉ name.toList) :
    normalize (normalize name) = normalize name := by
  rw [normalize, normalize, String.toList_ofList, normalForm_of_no_colon h]

theorem exists_normalize_eq_combine (directory relative : String) :
    ∃ spelling, combine directory relative = normalize spelling := by
  obtain ⟨cs, hc⟩ : ∃ cs, combined directory.toList relative.toList = normalForm cs := by
    unfold combined
    split
    · exact ⟨_, rfl⟩
    · split
      · exact ⟨_, rfl⟩
      · exact ⟨_, rfl⟩
  exact ⟨String.ofList cs, by rw [combine, hc, normalize, String.toList_ofList]⟩

/-- The name that a reference is looked up by is its own normal form. -/
theorem normalize_normalize_combine (directory relative : String) :
    normalize (normalize (combine directory relative)) = normalize (combine directory relative) := by
  obtain ⟨spelling, hs⟩ := exists_normalize_eq_combine directory relative
  rw [hs]
  simp only [normalize, String.toList_ofList, normalForm_twice]

/-- A normal form is its own just if it has a root, or its first segment is no drive with one dot or
two behind it. With a root, whichever it is, a name has the same normal form at the second look. -/
theorem normalize_normalize_eq_iff (name : String) :
    normalize (normalize name) = normalize name ↔
      ¬ (isRooted (String.ofList (slashed name.toList)) = false ∧
        DottedDrive (firstSegment (normalize name))) := by
  have hrooted : isRooted (String.ofList (slashed name.toList)) = false ↔
      root (slashed name.toList) = [] := by
    simp [isRooted]
  have heq : normalize (normalize name) = normalize name ↔
      normalForm (normalForm name.toList) = normalForm name.toList := by
    rw [normalize, normalize, String.toList_ofList, String.ofList_inj]
  have hfirst : firstSegment (normalize name) = (normalForm name.toList).takeWhile (· != '/') := by
    rw [firstSegment, normalize, String.toList_ofList]
  rw [hrooted, heq, hfirst]
  constructor
  · rintro h ⟨hr, hd⟩
    exact normalForm_ne_of_dottedDrive hr hd h
  · intro h
    rcases normalForm_normalForm name.toList with hn | hn
    · exact hn
    · obtain ⟨drive, dots, more, ha, hdots, -, hr, hj, -⟩ := hn
      have hw : '/' ∉ drive :: ':' :: dots := by
        rcases hdots with rfl | rfl <;> simp [up, (ne_slash_of_isAlpha ha).symm]
      refine absurd ⟨hr, dottedDrive_iff.2 ⟨drive, dots, ha, hdots, ?_⟩⟩ h
      rw [hj, takeWhile_join hw]

end ScriptHost.FileName
