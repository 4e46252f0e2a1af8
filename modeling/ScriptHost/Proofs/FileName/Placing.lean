import ScriptHost.Proofs.FileName.Climbing

/-! Where a relative name is put when it is seen from a directory: behind the directory with a slash
at its end. The slash settles what the root is, unless it is part of one itself. -/

namespace ScriptHost.FileName

/-- The segments of a name below its root, as its normal form keeps them. -/
def inside (cs : List Char) : List (List Char) := resolve (!(root cs).isEmpty) (splitRoot cs).2

/-- A directory as a relative name is put behind it: with slashes, and with one more at the end
unless it ends with one or is a drive. -/
def opened (directory : List Char) : List Char :=
  slashed directory ++
    if directory.getLast? == some '/' || root directory == directory then [] else ['/']

/-- A name with a slash at its end that what is put behind it cannot make part of a server's root.
-/
structure Closed (cs : List Char) : Prop where
  last : cs.getLast? = some '/'
  ne_slash : cs ≠ ['/']
  ne_slashes : cs ≠ ['/', '/']

variable {cs ds start rest directory relative : List Char} {segments : List (List Char)} {rooted : Bool}

@[simp] theorem slashed_slashed (cs : List Char) : slashed (slashed cs) = slashed cs :=
  slashed_of_not_mem (backslash_not_mem_slashed cs)

theorem backslash_not_mem_of_slashed (h : slashed cs = cs) : '\\' ∉ cs := h ▸ backslash_not_mem_slashed cs

@[simp] theorem slashed_append (cs ds : List Char) : slashed (cs ++ ds) = slashed cs ++ slashed ds :=
  List.map_append

@[simp] theorem normalForm_slashed (cs : List Char) : normalForm (slashed cs) = normalForm cs := by
  simp only [normalForm, slashed_slashed]

/-- A normal form is a root and the segments below it. -/
theorem normalForm_eq (cs : List Char) :
    normalForm cs = root (slashed cs) ++ join (inside (slashed cs)) := rfl

theorem normalized_inside (cs : List Char) : Normalized (!(root cs).isEmpty) (inside cs) :=
  normalized_resolve _ _

theorem splitRoot_of_root_eq_nil (h : root cs = []) : splitRoot cs = ([], cs) :=
  (rooting_splitRoot cs).resolve_right fun hr => hr.start_ne_nil h

theorem rooting_of_root_ne_nil (h : root cs ≠ []) : Rooting cs (root cs) (splitRoot cs).2 :=
  (rooting_splitRoot cs).resolve_left fun hs => h (congrArg Prod.fst hs)

theorem Rooting.root_eq (h : Rooting cs start rest) : root cs = start :=
  congrArg Prod.fst (splitRoot_of_rooting h)

theorem Rooting.inside_eq (h : Rooting cs start rest) : inside cs = resolve true rest := by
  have hs : start.isEmpty = false := by simpa using h.start_ne_nil
  rw [inside, root, splitRoot_of_rooting h, hs]
  rfl

theorem inside_of_root_eq_nil (h : root cs = []) : inside cs = resolve false cs := by
  rw [inside, h, splitRoot_of_root_eq_nil h]
  rfl

theorem slashed_opened (directory : List Char) : slashed (opened directory) = opened directory := by
  rw [opened, slashed_append, slashed_slashed]
  split <;> rfl

/-- A relative name is put behind its directory. -/
theorem combined_of_relative_name (hd : directory ≠ []) (hr : root relative = []) :
    combined directory relative = normalForm (opened directory ++ slashed relative) := by
  have he : normalForm (opened directory ++ slashed relative) =
      normalForm (directory ++ (if directory.getLast? == some '/' || root directory == directory
        then [] else ['/']) ++ relative) := by
    rw [← normalForm_slashed (directory ++ _ ++ relative), slashed_append, slashed_append, opened]
    congr 2
    split <;> rfl
  rw [he, combined, if_neg (by simp [hd, hr])]
  split
  · rw [List.append_nil]
  · rw [List.append_assoc]
    rfl

theorem Rooting.append (h : Rooting cs start rest) (hc : Closed cs) (ds : List Char) :
    Rooting (cs ++ ds) start (rest ++ ds) := by
  obtain ⟨hlast, hslash, hslashes⟩ := hc
  cases h with
  | slash h =>
    refine .slash ?_
    obtain ⟨first, more, rfl⟩ := List.exists_cons_of_ne_nil fun hn => hslash (congrArg _ hn)
    simpa using h
  | @server server _ h =>
    have hr : Rooting ('/' :: '/' :: server ++ '/' :: (rest ++ ds)) _ _ := .server h
    simpa using hr
  | bare h =>
    cases rest with
    | nil => exact absurd rfl hslashes
    | cons first more =>
      have hm : '/' ∈ first :: more := by
        apply List.mem_of_getLast?
        rwa [List.getLast?_cons_cons, List.getLast?_cons_cons] at hlast
      exact absurd hm h
  | drive h => exact .drive h
  | relative h hr =>
    refine .relative h ?_
    cases rest with
    | nil => simp at hlast
    | cons first more => simpa using hr

theorem root_drive_ne_nil {drive : Char} (ha : drive.isAlpha = true) (more : List Char) :
    root (drive :: ':' :: more) ≠ [] := by
  by_cases hm : more.head? = some '/'
  · obtain ⟨tail, rfl⟩ := List.head?_eq_some_iff.1 hm
    have hr : Rooting (drive :: ':' :: '/' :: tail) _ _ := .drive ha
    exact hr.root_eq ▸ hr.start_ne_nil
  · have hr : Rooting (drive :: ':' :: more) _ _ := .relative ha hm
    exact hr.root_eq ▸ hr.start_ne_nil

theorem root_cons_cons_eq_nil_iff {c d : Char} {more : List Char} :
    root (c :: d :: more) = [] ↔ c ≠ '/' ∧ ¬ (c.isAlpha = true ∧ d = ':') := by
  constructor
  · intro h
    constructor
    · rintro rfl
      exact root_slash_ne_nil _ h
    · rintro ⟨ha, rfl⟩
      exact root_drive_ne_nil ha more h
  · rintro ⟨hs, h⟩
    by_contra hn
    obtain ⟨ha, hd⟩ := (rooting_of_root_ne_nil hn).drive_of_ne_slash hs
    exact h ⟨ha, by rcases hd with ⟨hd, -⟩ | ⟨hd, -⟩ <;> exact (List.cons.inj hd).1⟩

theorem root_append_slash_of_root_eq_nil (h : root cs = []) (hn : cs ≠ []) (ds : List Char) :
    root (cs ++ '/' :: ds) = [] := by
  match cs with
  | [] => exact absurd rfl hn
  | [c] =>
    refine root_cons_cons_eq_nil_iff.2 ⟨?_, by simp⟩
    rintro rfl
    exact root_slash_ne_nil [] h
  | c :: d :: more => exact root_cons_cons_eq_nil_iff.2 (root_cons_cons_eq_nil_iff.1 h)

theorem Closed.root_append_of_root_eq_nil (hc : Closed cs) (h : root cs = []) (ds : List Char) :
    root (cs ++ ds) = [] := by
  obtain ⟨hlast, hslash, -⟩ := hc
  match cs with
  | [] => simp at hlast
  | [c] =>
    obtain rfl : c = '/' := by simpa using hlast
    exact absurd rfl hslash
  | c :: d :: more => exact root_cons_cons_eq_nil_iff.2 (root_cons_cons_eq_nil_iff.1 h)

theorem along_append (h : rest = [] ∨ rest.getLast? = some '/') (ds : List Char) :
    along rooted segments (rest ++ ds) = along rooted (along rooted segments rest) ds := by
  rcases h with rfl | h
  · rw [List.nil_append, along_nil]
  · obtain ⟨front, rfl⟩ := List.getLast?_eq_some_iff.1 h
    rw [List.append_assoc, List.singleton_append, along_append_slash, along_append_slash, along_nil]

theorem Closed.getLast?_rest (hc : Closed cs) (h : start ++ rest = cs) :
    rest = [] ∨ rest.getLast? = some '/' := by
  cases hn : rest with
  | nil => exact .inl rfl
  | cons first more =>
    right
    have hl := hc.last
    rwa [← h, hn, List.getLast?_append, List.getLast?_eq_some_getLast (by simp), Option.some_or] at hl

/-- What is put behind a closed name leads from its segments, below its root. -/
theorem Closed.root_append (hc : Closed cs) (ds : List Char) : root (cs ++ ds) = root cs := by
  by_cases h : root cs = []
  · rw [h, hc.root_append_of_root_eq_nil h]
  · exact ((rooting_of_root_ne_nil h).append hc ds).root_eq

theorem Closed.inside_append (hc : Closed cs) (ds : List Char) :
    inside (cs ++ ds) = along (!(root cs).isEmpty) (inside cs) ds := by
  by_cases h : root cs = []
  · rw [inside_of_root_eq_nil (hc.root_append_of_root_eq_nil h ds), inside_of_root_eq_nil h,
      resolve_eq_along, along_append (.inr hc.last), h]
    rfl
  · have hr := rooting_of_root_ne_nil h
    have hs : (!(root cs).isEmpty) = true := by simpa using h
    rw [(hr.append hc ds).inside_eq, hr.inside_eq, resolve_eq_along,
      along_append (hc.getLast?_rest (splitRoot_append cs)), hs]
    rfl

theorem Closed.normalForm_append (hc : Closed cs) (hb : slashed (cs ++ ds) = cs ++ ds) :
    normalForm (cs ++ ds) = root cs ++ join (along (!(root cs).isEmpty) (inside cs) ds) := by
  rw [normalForm_eq, hb, hc.root_append, hc.inside_append]

end ScriptHost.FileName
