import ScriptHost.Proofs.FileName.Endings
import ScriptHost.Proofs.FileName.Placing

/-! Names with backslashes. A name in normal form has none, so it makes no difference to the normal
form how a name is spelled; what is combined is looked at before that. -/

namespace ScriptHost.FileName

/-- The name with a slash for every backslash. -/
def withSlashes (name : String) : String := .ofList (slashed name.toList)

/-- The directories that end in a backslash that a root ends with. A name seen from one of them gets
a slash of its own, which makes the root that of a server. -/
def BackslashRoot (directory : List Char) : Prop :=
  directory = ['\\'] ∨ directory = ['\\', '\\'] ∨ directory = ['/', '\\']

/-- Whether a name with a root leads to the same place from a directory when the directory is put in
front of it: they have the root in common, and the name climbs out of all that comes before. -/
structure LeavesBehind (directory name : List Char) : Prop where
  root : root (opened directory ++ FileName.root name) = FileName.root name
  climb : (inside (opened directory ++ FileName.root name)).length ≤ climb (splitRoot name).2

variable {cs ds directory relative name : List Char} {segments others : List (List Char)}
  {rooted : Bool}

theorem exists_root_eq (cs : List Char) : ∃ tail, root ('/' :: '/' :: cs) = '/' :: '/' :: tail := by
  simp only [root, splitRoot]
  split
  · exact ⟨[], rfl⟩
  · exact ⟨_, rfl⟩

theorem root_of_slash (h : cs.head? ≠ some '/') : root ('/' :: cs) = ['/'] :=
  Rooting.root_eq (.slash h)

theorem root_slashes_ne_slash (cs : List Char) : root ('/' :: '/' :: cs) ≠ ['/'] := by
  obtain ⟨tail, htail⟩ := exists_root_eq cs
  simp [htail]

/-- Three slashes are the root of a server that is not named. -/
theorem root_of_slashes (cs : List Char) : root ('/' :: '/' :: '/' :: cs) = ['/', '/', '/'] := by
  have hr : Rooting ('/' :: '/' :: [] ++ '/' :: cs) ('/' :: '/' :: [] ++ ['/']) cs :=
    .server (by simp)
  exact hr.root_eq

theorem head?_slashed_eq_slash :
    (slashed cs).head? = some '/' ↔ cs.head? = some '/' ∨ cs.head? = some '\\' := by
  cases cs with
  | nil => simp [slashed]
  | cons c cs => by_cases hc : c = '\\' <;> simp [slashed, hc]

/-- Straight slashes keep a root, and make one only of a backslash at the beginning. -/
theorem root_slashed_eq_nil_iff :
    root (slashed cs) = [] ↔ root cs = [] ∧ cs.head? ≠ some '\\' := by
  match cs with
  | [] => simp [slashed, root, splitRoot]
  | [c] =>
    by_cases hc : c = '\\'
    · subst c
      simpa [slashed] using root_slash_ne_nil []
    · simp [slashed, hc]
  | c :: d :: cs =>
    by_cases hc : c = '\\'
    · subst c
      simpa [slashed] using root_slash_ne_nil _
    have hl : slashed (c :: d :: cs) = c :: (if d = '\\' then '/' else d) :: slashed cs := by
      simp [slashed, hc]
    have hcolon : (if d = '\\' then '/' else d) = ':' ↔ d = ':' := by
      by_cases hd : d = '\\' <;> simp [hd]
    rw [hl, root_cons_cons_eq_nil_iff, root_cons_cons_eq_nil_iff, hcolon]
    simp [hc]

theorem join_inj (h : Normalized rooted segments) (ho : Normalized rooted others) :
    join segments = join others ↔ segments = others :=
  ⟨fun he => by rw [← resolve_join h, he, resolve_join ho], congrArg join⟩

theorem along_eq_along_nil_iff (h : Normalized true segments) :
    along true segments cs = along true [] cs ↔ segments.length ≤ climb cs := by
  rw [along_of_rooted h, along_of_rooted (normalized_nil true), List.take_nil, List.nil_append,
    List.append_left_eq_self, List.take_eq_nil_iff, Nat.sub_eq_zero_iff_le]
  constructor
  · rintro (hn | rfl)
    · exact hn
    · exact Nat.zero_le _
  · exact .inl

theorem getLast?_root_of_slash (h : name.head? = some '/') :
    ∃ front, root name = front ++ ['/'] := by
  obtain ⟨rest, rfl⟩ := List.head?_eq_some_iff.1 h
  have hr := rooting_of_root_ne_nil (root_slash_ne_nil rest)
  generalize root ('/' :: rest) = start at hr
  generalize (splitRoot ('/' :: rest)).2 = path at hr
  cases hr with
  | slash => exact ⟨[], rfl⟩
  | server => exact ⟨_, rfl⟩
  | bare => exact ⟨['/'], rfl⟩
  | drive ha | relative ha => exact absurd rfl (ne_slash_of_isAlpha ha)

theorem opened_ne_nil (h : directory ≠ []) : opened directory ≠ [] := by
  have hs : slashed directory ≠ [] := by simpa [slashed] using h
  simp [opened, hs]

theorem root_eq_of_normalForm_eq (hc : slashed cs = cs) (hd : slashed ds = ds) (hn : root cs ≠ [])
    (hn' : root ds ≠ []) (h : normalForm cs = normalForm ds) : root cs = root ds := by
  rw [← root_normalForm (backslash_not_mem_of_slashed hc) hn, h,
    root_normalForm (backslash_not_mem_of_slashed hd) hn']

theorem normalForm_of_root_ne_nil (hb : slashed name = name) (hn : root name ≠ []) :
    normalForm name = root name ++ join (along true [] (splitRoot name).2) := by
  rw [normalForm_eq, hb, (rooting_of_root_ne_nil hn).inside_eq, resolve_eq_along]

/-- A name has a root if its normal form is that of a name that begins with a slash. -/
theorem root_ne_nil_of_normalForm_eq (hc : slashed cs = cs) (hb : slashed name = name)
    (hr : name.head? = some '/') (h : normalForm cs = normalForm name) : root cs ≠ [] := by
  obtain ⟨front, hfront⟩ := getLast?_root_of_slash hr
  have hn : root name ≠ [] := by simp [hfront]
  have hhead : (normalForm name).head? = some '/' := by
    have hsplit : root name ++ (splitRoot name).2 = name := splitRoot_append name
    rw [normalForm_of_root_ne_nil hb hn, List.head?_append_of_ne_nil _ hn]
    rwa [← hsplit, List.head?_append_of_ne_nil _ hn] at hr
  intro hz
  rw [← h, normalForm_of_unrooted (by rw [hc, splitRoot_of_root_eq_nil hz])] at hhead
  exact absurd hhead (head?_join (normalized_resolve _ _).proper)

theorem eq_slash_of_append_slash (h : cs ++ ['/'] = ['/', '/']) : cs = ['/'] :=
  List.append_cancel_right (h.trans (show ['/', '/'] = ['/'] ++ ['/'] from rfl))

theorem eq_slash_of_append_eq {front : List Char} (h : cs ++ (front ++ ['/']) = ['/', '/'])
    (hn : cs ≠ []) : cs = ['/'] ∧ front = [] := by
  obtain ⟨c, more, rfl⟩ := List.exists_cons_of_ne_nil hn
  obtain ⟨rfl, hrest⟩ := List.cons.inj h
  rcases List.append_eq_singleton_iff.1 hrest with ⟨rfl, hf⟩ | ⟨-, hf⟩
  · exact ⟨rfl, List.append_cancel_right (hf.trans (List.nil_append _).symm)⟩
  · simp at hf

/-- With the root in common, a name behind others leads from their segments. -/
theorem normalForm_append_of_root_eq (hc : Closed (cs ++ root name))
    (hb : slashed (cs ++ name) = cs ++ name) (hn : root name ≠ [])
    (h : root (cs ++ root name) = root name) :
    Normalized true (inside (cs ++ root name)) ∧
      normalForm (cs ++ name) =
        root name ++ join (along true (inside (cs ++ root name)) (splitRoot name).2) := by
  have hf : (!(root name).isEmpty) = true := by simpa using hn
  have happend : cs ++ name = cs ++ root name ++ (splitRoot name).2 := by
    rw [List.append_assoc]
    exact congrArg _ (splitRoot_append name).symm
  have hsegments := normalized_inside (cs ++ root name)
  rw [h, hf] at hsegments
  refine ⟨hsegments, ?_⟩
  rw [happend, hc.normalForm_append (happend ▸ hb), h, hf]

/-- A rooted name behind a directory has its own normal form just if it leaves the directory behind.
-/
theorem normalForm_opened_append_iff (hd : directory ≠ []) (hb : slashed name = name)
    (hr : name.head? = some '/') :
    normalForm (opened directory ++ name) = normalForm name ↔ LeavesBehind directory name := by
  obtain ⟨front, hfront⟩ := getLast?_root_of_slash hr
  have hroot : root name ≠ [] := by simp [hfront]
  have happend : opened directory ++ name =
      opened directory ++ root name ++ (splitRoot name).2 := by
    rw [List.append_assoc]
    exact congrArg _ (splitRoot_append name).symm
  have hslashed : slashed (opened directory ++ name) = opened directory ++ name := by
    rw [slashed_append, slashed_opened, hb]
  have hsame (he : normalForm (opened directory ++ name) = normalForm name) :
      root (opened directory ++ name) = root name :=
    root_eq_of_normalForm_eq hslashed hb (root_ne_nil_of_normalForm_eq hslashed hb hr he) hroot he
  by_cases hs : opened directory ++ root name = ['/', '/']
  · -- Here the two slashes are the root of a server, where the name has the one that it begins with.
    obtain ⟨-, hnil⟩ := eq_slash_of_append_eq (hfront ▸ hs) (opened_ne_nil hd)
    have hslash : root name = ['/'] := by rw [hfront, hnil, List.nil_append]
    refine iff_of_false (fun he => ?_) fun h => ?_
    · have hm := hsame he
      rw [happend, hs, hslash] at hm
      exact root_slashes_ne_slash _ hm
    · have hm := h.root
      rw [hs, hslash] at hm
      exact root_slashes_ne_slash [] hm
  · have hc : Closed (opened directory ++ root name) := by
      refine ⟨by simp [hfront], fun he => ?_, hs⟩
      rcases List.append_eq_singleton_iff.1 he with ⟨ho, -⟩ | ⟨-, hn⟩
      · exact opened_ne_nil hd ho
      · exact hroot hn
    have hname := normalForm_of_root_ne_nil hb hroot
    constructor
    · intro he
      have hm : root (opened directory ++ root name) = root name := by
        rw [← hc.root_append, ← happend, hsame he]
      obtain ⟨hsegments, hform⟩ := normalForm_append_of_root_eq hc hslashed hroot hm
      refine ⟨hm, (along_eq_along_nil_iff hsegments).1 ?_⟩
      rw [hform, hname] at he
      exact (join_inj (normalized_along hsegments _)
        (normalized_along (normalized_nil true) _)).1 (List.append_cancel_left he)
    · rintro ⟨hm, hclimb⟩
      obtain ⟨hsegments, hform⟩ := normalForm_append_of_root_eq hc hslashed hroot hm
      rw [hform, hname, (along_eq_along_nil_iff hsegments).2 hclimb]

/-- A name that is its own root ends in a slash, or is a drive. -/
theorem exists_drive_of_root_eq_self (h : root cs = cs) (hn : cs ≠ []) (hl : cs.getLast? ≠ some '/') :
    ∃ drive, cs = [drive, ':'] ∧ drive.isAlpha = true := by
  have hr := rooting_of_root_ne_nil (h.symm ▸ hn)
  have hrest : (splitRoot cs).2 = [] := by
    have hs : root cs ++ (splitRoot cs).2 = cs := splitRoot_append cs
    rwa [h, List.append_right_eq_self] at hs
  rw [hrest] at hr
  generalize root cs = start at hr
  cases hr with
  | slash | bare | drive => simp at hl
  | server => exact absurd List.getLast?_concat hl
  | relative ha => exact ⟨_, rfl, ha⟩

theorem getLast?_slashed (cs : List Char) :
    (slashed cs).getLast? = cs.getLast?.map fun c => if c = '\\' then '/' else c :=
  List.getLast?_map

theorem slashed_drive {drive : Char} (ha : drive.isAlpha = true) :
    slashed [drive, ':'] = [drive, ':'] := by
  have hne : drive ≠ '\\' := by
    rintro rfl
    exact absurd ha (by decide)
  simp [slashed, hne]

theorem eq_drive_of_slashed {drive : Char} (ha : drive.isAlpha = true)
    (h : slashed directory = [drive, ':']) : directory = [drive, ':'] := by
  have hb : '\\' ∉ directory := by
    intro hm
    have hslash : '/' ∈ slashed directory := List.mem_map.2 ⟨_, hm, rfl⟩
    simp [h, (ne_slash_of_isAlpha ha).symm] at hslash
  rwa [slashed_of_not_mem hb] at h

theorem opened_of_backslash (h : directory.getLast? = some '\\') :
    opened directory = slashed directory ++ ['/'] ∧
      opened (slashed directory) = slashed directory := by
  have hroot : root directory ≠ directory := by
    intro hr
    have hl : (root directory).getLast? = some '\\' := by rw [hr, h]
    rcases getLast?_root hl with hc | hc <;> simp at hc
  constructor
  · simp [opened, h, hroot]
  · simp [opened, getLast?_slashed, h]

theorem opened_slashed_of_not_backslash (hd : directory ≠ [])
    (h : directory.getLast? ≠ some '\\') : opened (slashed directory) = opened directory := by
  have hs : (slashed directory).getLast? = directory.getLast? := by
    rw [getLast?_slashed]
    cases hl : directory.getLast? with
    | none => rfl
    | some c =>
      have hc : c ≠ '\\' := fun he => h (he ▸ hl)
      simp [hc]
  by_cases hl : directory.getLast? = some '/'
  · simp [opened, hs, hl]
  have hroot : root (slashed directory) = slashed directory ↔ root directory = directory := by
    constructor
    · intro hr
      obtain ⟨drive, he, ha⟩ :=
        exists_drive_of_root_eq_self hr (by simpa [slashed] using hd) (hs ▸ hl)
      rw [eq_drive_of_slashed ha he]
      rwa [he] at hr
    · intro hr
      obtain ⟨drive, rfl, ha⟩ := exists_drive_of_root_eq_self hr hd hl
      rwa [slashed_drive ha]
  simp [opened, hs, hl, hroot]

theorem backslashRoot_iff : BackslashRoot directory ↔ directory.getLast? = some '\\' ∧
    (slashed directory = ['/'] ∨ slashed directory = ['/', '/']) := by
  constructor
  · rintro (rfl | rfl | rfl) <;> decide
  · rintro ⟨hl, hs | hs⟩
    · obtain ⟨c, more, rfl, -, hm⟩ := List.map_eq_cons_iff.1 hs
      obtain rfl : more = [] := List.map_eq_nil_iff.1 hm
      exact .inl (by simpa using hl)
    · obtain ⟨c, more, rfl, hc, hm⟩ := List.map_eq_cons_iff.1 hs
      obtain ⟨d, rest, rfl, -, hm⟩ := List.map_eq_cons_iff.1 hm
      obtain rfl : rest = [] := List.map_eq_nil_iff.1 hm
      obtain rfl : d = '\\' := by simpa using hl
      by_cases hb : c = '\\'
      · exact .inr (.inl (by rw [hb]))
      · rw [if_neg hb] at hc
        exact .inr (.inr (by rw [hc]))

/-- One slash more makes a bare root that of a server. -/
theorem normalForm_slash_ne (hb : slashed name = name) (hr : name.head? ≠ some '/') :
    normalForm ('/' :: '/' :: name) ≠ normalForm ('/' :: name) := by
  intro h
  have he : root ('/' :: '/' :: name) = root ('/' :: name) := by
    refine root_eq_of_normalForm_eq ?_ ?_ (root_slash_ne_nil _) (root_slash_ne_nil _) h
    · exact congrArg (fun cs => '/' :: '/' :: cs) hb
    · exact congrArg ('/' :: ·) hb
  rw [root_of_slash hr] at he
  exact root_slashes_ne_slash name he

/-- One slash more keeps a name from being that of a server. -/
theorem normalForm_slashes_ne (hb : slashed name = name) (hr : name.head? ≠ some '/') :
    normalForm ('/' :: '/' :: '/' :: name) ≠ normalForm ('/' :: '/' :: name) := by
  intro h
  have he : root ('/' :: '/' :: '/' :: name) = root ('/' :: '/' :: name) := by
    refine root_eq_of_normalForm_eq ?_ ?_ (root_slash_ne_nil _) (root_slash_ne_nil _) h
    · exact congrArg (fun cs => '/' :: '/' :: '/' :: cs) hb
    · exact congrArg (fun cs => '/' :: '/' :: cs) hb
  have hsplit : root ('/' :: '/' :: name) ++ (splitRoot ('/' :: '/' :: name)).2 =
      '/' :: '/' :: name := splitRoot_append _
  rw [← he, root_of_slashes] at hsplit
  have hname : '/' :: (splitRoot ('/' :: '/' :: name)).2 = name := by simpa using hsplit
  exact hr (by rw [← hname]; rfl)

/-- One slash more makes no difference behind any other directory. -/
theorem Closed.normalForm_slash (hc : Closed cs) (hs : slashed cs = cs) (hb : slashed name = name) :
    normalForm (cs ++ ['/'] ++ name) = normalForm (cs ++ name) := by
  have hmore : slashed (cs ++ ['/'] ++ name) = cs ++ ['/'] ++ name := by
    rw [slashed_append, slashed_append, hs, hb]
    rfl
  have hplain : slashed (cs ++ name) = cs ++ name := by rw [slashed_append, hs, hb]
  have hcmore : Closed (cs ++ ['/']) := by
    refine ⟨List.getLast?_concat, fun he => ?_, fun he => ?_⟩
    · have hnil : cs = [] := List.append_cancel_right (he.trans (List.nil_append _).symm)
      simpa [hnil] using hc.last
    · exact hc.ne_slash (eq_slash_of_append_slash he)
  rw [hcmore.normalForm_append hmore, hc.normalForm_append hplain, hc.root_append, hc.inside_append,
    along_slash, along_nil]

/-- A relative name has one place behind both spellings of a directory, unless the directory is a
root that ends in a backslash. -/
theorem normalForm_opened_slashed_iff (hd : directory ≠ []) (hb : slashed name = name)
    (hr : name.head? ≠ some '/') :
    normalForm (opened directory ++ name) = normalForm (opened (slashed directory) ++ name) ↔
      ¬ BackslashRoot directory := by
  by_cases hl : directory.getLast? = some '\\'
  swap
  · rw [opened_slashed_of_not_backslash hd hl]
    exact iff_of_true rfl fun hroot => hl (backslashRoot_iff.1 hroot).1
  obtain ⟨ho, hs⟩ := opened_of_backslash hl
  rw [ho, hs, backslashRoot_iff, and_iff_right hl]
  by_cases hone : slashed directory = ['/']
  · rw [hone]
    exact iff_of_false (normalForm_slash_ne hb hr) (by simp)
  by_cases htwo : slashed directory = ['/', '/']
  · rw [htwo]
    exact iff_of_false (normalForm_slashes_ne hb hr) (by simp)
  have hlast : (slashed directory).getLast? = some '/' := by
    rw [getLast?_slashed, hl]
    rfl
  have hc : Closed (slashed directory) := ⟨hlast, hone, htwo⟩
  exact iff_of_true (hc.normalForm_slash (slashed_slashed directory) hb) (by simp [hone, htwo])

/-- What is combined is the same for both spellings unless a backslash is where a root begins or
ends. -/
theorem combined_slashed_iff (directory relative : List Char) :
    combined directory relative = combined (slashed directory) (slashed relative) ↔
      directory = [] ∨ root relative ≠ [] ∨
        root (slashed relative) ≠ [] ∧ LeavesBehind directory (slashed relative) ∨
        root (slashed relative) = [] ∧ ¬ BackslashRoot directory := by
  by_cases hd : directory = []
  · subst directory
    have hs : slashed [] = [] := rfl
    simp [hs, combined]
  have hds : slashed directory ≠ [] := by simpa [slashed] using hd
  by_cases hr : root relative = []
  swap
  · have hrs : root (slashed relative) ≠ [] := fun h => hr (root_slashed_eq_nil_iff.1 h).1
    rw [combined_of_rooted hr, combined_of_rooted hrs, normalForm_slashed]
    simp [hr]
  by_cases hrs : root (slashed relative) = []
  · have hh : (slashed relative).head? ≠ some '/' := by
      intro hh
      obtain ⟨rest, hrest⟩ := List.head?_eq_some_iff.1 hh
      exact root_slash_ne_nil rest (hrest ▸ hrs)
    rw [combined_of_relative_name hd hr, combined_of_relative_name hds hrs, slashed_slashed,
      normalForm_opened_slashed_iff hd (slashed_slashed relative) hh]
    simp [hd, hr, hrs]
  · have hh : (slashed relative).head? = some '/' := by
      refine head?_slashed_eq_slash.2 (.inr ?_)
      by_contra hn
      exact hrs (root_slashed_eq_nil_iff.2 ⟨hr, hn⟩)
    rw [combined_of_relative_name hd hr, combined_of_rooted hrs,
      normalForm_opened_append_iff hd (slashed_slashed relative) hh]
    simp [hd, hr, hrs]

theorem root_of_backslash (cs : List Char) : root ('\\' :: cs) = [] := by
  cases cs with
  | nil => rfl
  | cons c cs => exact root_cons_cons_eq_nil_iff.2 ⟨by decide, fun h => absurd h.1 (by decide)⟩

theorem isRooted_eq_true_iff {name : String} : isRooted name = true ↔ root name.toList ≠ [] := by
  simp [isRooted]

theorem isRooted_eq_false_iff {name : String} : isRooted name = false ↔ root name.toList = [] := by
  simp [isRooted]

/-- A name is absolute in both spellings unless it begins with a backslash. So names are combined to
the same name whichever slashes they are spelled with, but for two cases: a name that begins with a
backslash is put behind its directory, and gets to its own place only by climbing out of it; and a
directory that is a root with a backslash at its end gets one slash too many. -/
theorem combine_withSlashes_iff (directory relative : String) :
    (isRooted relative = isRooted (withSlashes relative) ↔
      relative.toList.head? ≠ some '\\') ∧
    (combine directory relative = combine (withSlashes directory) (withSlashes relative) ↔
      directory = "" ∨ isRooted relative = true ∨
        isRooted (withSlashes relative) = true ∧
          LeavesBehind directory.toList (withSlashes relative).toList ∨
        isRooted (withSlashes relative) = false ∧ ¬ BackslashRoot directory.toList) := by
  have hws (name : String) : (withSlashes name).toList = slashed name.toList := String.toList_ofList
  have hrooted : isRooted (withSlashes relative) = false ↔
      isRooted relative = false ∧ relative.toList.head? ≠ some '\\' := by
    rw [isRooted_eq_false_iff, isRooted_eq_false_iff, hws, root_slashed_eq_nil_iff]
  constructor
  · constructor
    · intro he hh
      obtain ⟨rest, hrest⟩ := List.head?_eq_some_iff.1 hh
      have hf : isRooted relative = false := isRooted_eq_false_iff.2 (hrest ▸ root_of_backslash rest)
      exact (hrooted.1 (he ▸ hf)).2 hh
    · intro hh
      cases hr : isRooted relative with
      | false => exact (hrooted.2 ⟨hr, hh⟩).symm
      | true =>
        refine (Bool.eq_true_of_not_eq_false fun hn => ?_).symm
        rw [(hrooted.1 hn).1] at hr
        exact Bool.false_ne_true hr
  · rw [combine, combine, String.ofList_inj, hws, hws, combined_slashed_iff, isRooted_eq_true_iff,
      isRooted_eq_true_iff, isRooted_eq_false_iff, hws, String.toList_eq_nil_iff]

/-- A reference that begins with a backslash leads below the directory that it stands in, where the
same reference with a slash leads to the root. -/
theorem backslash_is_put_behind_directory :
    combine "a" "\\abs\\ship.ts" = "a/abs/ship.ts" ∧
    combine (withSlashes "a") (withSlashes "\\abs\\ship.ts") = "/abs/ship.ts" ∧
    isRooted "\\abs\\ship.ts" = false ∧ isRooted (withSlashes "\\abs\\ship.ts") = true ∧
    ¬ ∀ directory relative : String, combine directory relative =
      combine (withSlashes directory) (withSlashes relative) := by
  have hraw : combine "a" "\\abs\\ship.ts" = "a/abs/ship.ts" := by decide
  have hstraight : combine (withSlashes "a") (withSlashes "\\abs\\ship.ts") = "/abs/ship.ts" := by
    decide
  refine ⟨hraw, hstraight, by decide, by decide, fun h => ?_⟩
  have he := h "a" "\\abs\\ship.ts"
  rw [hraw, hstraight] at he
  exact absurd he (by decide)

end ScriptHost.FileName
