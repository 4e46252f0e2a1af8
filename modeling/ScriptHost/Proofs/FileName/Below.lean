import ScriptHost.Proofs.FileName.Backslashes

/-! Names below a directory, and which relative names lead there. -/

namespace ScriptHost.FileName

/-- What separates a directory from the names below it: nothing if the directory is a bare root. -/
def separator (directory : List Char) : List Char :=
  if normalForm directory = root (slashed directory) then [] else ['/']

/-- Whether a name lies below a directory: it goes on from the normal form of the directory, behind
a separator where one is needed, with a segment that does not climb. -/
def LiesBelow (directory name : List Char) : Prop :=
  ∃ rest, name = normalForm directory ++ separator directory ++ rest ∧
    rest.takeWhile (· != '/') ≠ [] ∧ rest.takeWhile (· != '/') ≠ up

/-- Whether a name enters again all the segments of a directory that it climbs out of, and goes on
from there. Without a root there has to be a segment for each climb. -/
structure Reenters (directory relative : List Char) : Prop where
  reach : root (opened directory) = [] →
    climb relative ≤ (settled (inside (opened directory))).length
  enters : (settled (inside (opened directory))).drop
      ((settled (inside (opened directory))).length - climb relative) <+: onward relative
  further : (settled (inside (opened directory))).drop
      ((settled (inside (opened directory))).length - climb relative) ≠ onward relative

variable {cs ds start rest directory relative name server : List Char} {segments target plain more : List (List Char)}
  {rooted : Bool}

theorem join_singleton (segment : List Char) : join [segment] = segment := by
  rw [join_cons, List.flatMap_nil, List.append_nil]

theorem join_append (hs : segments ≠ []) (hm : more ≠ []) :
    join (segments ++ more) = join segments ++ '/' :: join more := by
  obtain ⟨first, rest, rfl⟩ := List.exists_cons_of_ne_nil hs
  rw [List.cons_append, join_cons, List.flatMap_append, flatMap_slash hm, join_cons, List.append_assoc]

theorem splitOn_join (h : Normalized rooted segments) (hn : segments ≠ []) :
    (join segments).splitOn '/' = segments :=
  List.splitOn_intercalate '/' (fun s hs => (h.proper s hs).whole) hn

theorem join_eq_nil_iff (h : Normalized rooted segments) : join segments = [] ↔ segments = [] := by
  rw [← join_inj h (normalized_nil rooted), join_nil]

theorem exists_splitOn_eq (cs : List Char) :
    ∃ more, cs.splitOn '/' = cs.takeWhile (· != '/') :: more := by
  obtain ⟨first, more, hs⟩ := List.exists_cons_of_ne_nil (List.splitOn_ne_nil '/' cs)
  have hf : '/' ∉ first := not_mem_of_mem_splitOn (hs ▸ List.mem_cons_self)
  have hj : join (first :: more) = cs := by rw [← hs, join, List.intercalate_splitOn]
  exact ⟨more, by rw [hs, ← hj, takeWhile_join hf]⟩

theorem separator_eq (h : normalForm directory = root (slashed directory) ++ join segments)
    (hn : Normalized rooted segments) :
    separator directory = if segments = [] then [] else ['/'] := by
  have hs : normalForm directory = root (slashed directory) ↔ segments = [] := by
    rw [h, List.append_right_eq_self, join_eq_nil_iff hn]
  simp only [separator, hs]

/-- Below a directory are the names whose segments go on from its own. -/
theorem liesBelow_append_join_iff
    (h : normalForm directory = root (slashed directory) ++ join segments)
    (hn : Normalized rooted segments) (ht : Normalized rooted target) :
    LiesBelow directory (root (slashed directory) ++ join target) ↔
      ∃ more, target = segments ++ more ∧ more ≠ [] ∧ more.head? ≠ some up := by
  rw [LiesBelow, separator_eq h hn, h]
  by_cases hz : segments = []
  · subst segments
    simp only [join_nil, if_true, List.append_nil, List.nil_append, List.append_cancel_left_eq,
      exists_eq_left']
    cases target with
    | nil => simp
    | cons first more =>
      have hp := ht.proper first List.mem_cons_self
      rw [takeWhile_join hp.whole]
      simp [hp.ne_nil]
  · rw [if_neg hz]
    constructor
    · rintro ⟨rest, he, hfirst, hup⟩
      have hj : join target = join segments ++ '/' :: rest := by
        rw [List.append_assoc, List.append_assoc] at he
        exact List.append_cancel_left he
      have htarget : target ≠ [] := by
        rintro rfl
        simp at hj
      obtain ⟨more, hm⟩ := exists_splitOn_eq rest
      refine ⟨rest.splitOn '/', ?_, by simp [hm], by simpa [hm] using hup⟩
      rw [← splitOn_join ht htarget, hj, List.splitOn_append_cons_self, splitOn_join hn hz]
    · rintro ⟨more, rfl, hm, hup⟩
      obtain ⟨first, others, rfl⟩ := List.exists_cons_of_ne_nil hm
      have hp := ht.proper first (by simp)
      refine ⟨join (first :: others), ?_, ?_, ?_⟩
      · rw [join_append hz hm]
        simp
      · rw [takeWhile_join hp.whole]
        exact hp.ne_nil
      · rw [takeWhile_join hp.whole]
        simpa using hup

theorem Normalized.head?_ne_up (h : Normalized true more) : more.head? ≠ some up := by
  intro hh
  obtain ⟨rest, rfl⟩ := List.head?_eq_some_iff.1 hh
  exact h.rooted rfl List.mem_cons_self

theorem exists_append_iff (ho : Normalized true target) :
    (∃ more, target = segments ++ more ∧ more ≠ [] ∧ more.head? ≠ some up) ↔
      segments <+: target ∧ segments ≠ target := by
  constructor
  · rintro ⟨more, rfl, hm, -⟩
    exact ⟨List.prefix_append _ _, by simpa using hm⟩
  · rintro ⟨⟨more, rfl⟩, hne⟩
    exact ⟨more, rfl, by simpa using hne, ho.of_append_right.head?_ne_up⟩

theorem append_take_append_eq_iff (before plain target more : List (List Char)) (count : Nat) :
    before ++ plain.take count ++ target = before ++ plain ++ more ↔
      target = plain.drop count ++ more := by
  have hp : before ++ plain ++ more =
      before ++ plain.take count ++ (plain.drop count ++ more) := by
    rw [← List.append_assoc, List.append_assoc before (List.take _ _), List.take_append_drop]
  rw [hp, List.append_cancel_left_eq]

/-- What begins with a climb goes on from plain segments only if there are none, and then with the
climb. -/
theorem head?_eq_up_of_replicate_append (h : Normalized true plain) (extra : Nat)
    (he : List.replicate (extra + 1) up ++ target = plain ++ more) : more.head? = some up := by
  rw [List.replicate_succ, List.cons_append] at he
  cases plain with
  | nil =>
    rw [List.nil_append] at he
    rw [← he]
    rfl
  | cons first rest =>
    obtain ⟨rfl, -⟩ := List.cons.inj he
    exact absurd List.mem_cons_self (h.rooted rfl)

/-- Where a name leads from segments goes on from them just if it enters again what it climbs out
of. -/
theorem along_extends_iff (h : Normalized rooted segments) (cs : List Char) :
    (∃ more, along rooted segments cs = segments ++ more ∧ more ≠ [] ∧ more.head? ≠ some up) ↔
      (rooted = false → climb cs ≤ (settled segments).length) ∧
        (settled segments).drop ((settled segments).length - climb cs) <+: onward cs ∧
        (settled segments).drop ((settled segments).length - climb cs) ≠ onward cs := by
  have hplain := h.settled
  have hs := eq_replicate_append_settled segments
  generalize (segments.takeWhile (· == up)).length = outer at hs
  generalize settled segments = plain at hs hplain
  subst segments
  cases rooted with
  | true =>
    obtain rfl : outer = 0 := by
      by_contra hn
      exact h.rooted rfl (by simp [hn])
    have hcut (more : List (List Char)) :
        plain.take (plain.length - climb cs) ++ onward cs = plain ++ more ↔
          onward cs = plain.drop (plain.length - climb cs) ++ more :=
      append_take_append_eq_iff [] plain (onward cs) more _
    simp only [List.replicate_zero, List.nil_append, along_of_rooted hplain, hcut,
      exists_append_iff (normalized_onward cs)]
    simp
  | false =>
    rw [along_of_unrooted hplain]
    by_cases hk : climb cs ≤ plain.length
    · simp only [Nat.sub_eq_zero_of_le hk, Nat.add_zero, append_take_append_eq_iff,
        exists_append_iff (normalized_onward cs), hk, implies_true, true_and]
    · refine iff_of_false ?_ fun hc => hk (hc.1 rfl)
      rintro ⟨more, he, -, hup⟩
      obtain ⟨extra, hx⟩ : ∃ extra, climb cs - plain.length = extra + 1 :=
        Nat.exists_eq_add_one.2 (by omega)
      have ht : plain.length - climb cs = 0 := by omega
      rw [hx, ht, List.take_zero, List.append_nil, List.replicate_add, List.append_assoc,
        List.append_assoc, List.append_cancel_left_eq] at he
      exact hup (head?_eq_up_of_replicate_append hplain extra he)

/-- A slash behind a name with a root changes neither the root nor what follows it, but for four
kinds of names that are roots themselves or have one that is not complete. -/
theorem Rooting.append_slash (h : Rooting cs start rest) :
    Rooting (cs ++ ['/']) start (rest ++ ['/']) ∨ cs = ['/'] ∨
      (∃ server, cs = '/' :: '/' :: server ∧ '/' ∉ server) ∨
      ∃ drive, cs = [drive, ':'] ∧ drive.isAlpha = true := by
  cases h with
  | slash h =>
    cases rest with
    | nil => exact .inr (.inl rfl)
    | cons first more => exact .inl (.slash (by simpa using h))
  | @server server _ h =>
    have hr : Rooting ('/' :: '/' :: server ++ '/' :: (rest ++ ['/'])) _ _ := .server h
    exact .inl (by simpa using hr)
  | bare h => exact .inr (.inr (.inl ⟨_, rfl, h⟩))
  | drive ha => exact .inl (.drive ha)
  | relative ha h =>
    cases rest with
    | nil => exact .inr (.inr (.inr ⟨_, rfl, ha⟩))
    | cons first more => exact .inl (.relative ha (by simpa using h))

theorem resolve_append_slash (rooted : Bool) (cs : List Char) :
    resolve rooted (cs ++ ['/']) = resolve rooted cs := by
  rw [resolve_eq_along, along_append_slash, along_nil]
  rfl

theorem backslash_of_slashed (h : (slashed directory).getLast? = some '/')
    (hl : directory.getLast? ≠ some '/') : directory.getLast? = some '\\' := by
  rw [getLast?_slashed] at h
  cases hd : directory.getLast? with
  | none => simp [hd] at h
  | some c =>
    by_cases hc : c = '\\'
    · rw [hc]
    · simp only [hd, Option.map_some, if_neg hc] at h
      exact absurd (hd.trans h) hl

/-- A directory has its root and its segments when it is opened, unless it is a root that ends in a
backslash, or a server. -/
theorem opened_cases (hd : directory ≠ []) :
    (root (opened directory) = root (slashed directory) ∧
      inside (opened directory) = inside (slashed directory)) ∨
    BackslashRoot directory ∨
    ∃ server, slashed directory = '/' :: '/' :: server ∧ server ≠ [] ∧ '/' ∉ server := by
  by_cases hg : (directory.getLast? == some '/' || root directory == directory) = true
  · left
    rw [opened, if_pos hg, List.append_nil]
    exact ⟨rfl, rfl⟩
  rw [opened, if_neg hg]
  obtain ⟨hl, hself⟩ : directory.getLast? ≠ some '/' ∧ root directory ≠ directory := by
    simpa using hg
  have hn : slashed directory ≠ [] := by simpa [slashed] using hd
  by_cases hz : root (slashed directory) = []
  · left
    have hr := root_append_slash_of_root_eq_nil hz hn []
    rw [hr, hz, inside_of_root_eq_nil hr, inside_of_root_eq_nil hz, resolve_append_slash]
    exact ⟨rfl, rfl⟩
  have hr := rooting_of_root_ne_nil hz
  rcases hr.append_slash with hs | hs | ⟨server, hs, hw⟩ | ⟨drive, hs, ha⟩
  · left
    rw [hs.root_eq, hs.inside_eq, hr.root_eq, hr.inside_eq, resolve_append_slash]
    exact ⟨rfl, rfl⟩
  · exact .inr (.inl (backslashRoot_iff.2
      ⟨backslash_of_slashed (by rw [hs]; rfl) hl, .inl hs⟩))
  · by_cases hserver : server = []
    · subst server
      exact .inr (.inl (backslashRoot_iff.2
        ⟨backslash_of_slashed (by rw [hs]; rfl) hl, .inr hs⟩))
    · exact .inr (.inr ⟨server, hs, hserver, hw⟩)
  · have hdrive : Rooting [drive, ':'] [drive, ':'] [] := .relative ha (by simp)
    obtain rfl := eq_drive_of_slashed ha hs
    exact absurd hdrive.root_eq hself

theorem head?_ne_slash_of_root_eq_nil (h : root relative = []) : relative.head? ≠ some '/' := by
  intro hh
  obtain ⟨rest, rfl⟩ := List.head?_eq_some_iff.1 hh
  exact root_slash_ne_nil rest h

/-- Behind an opened directory a relative name leads from its segments, unless the slash that it
begins with would be taken for the end of a server. -/
theorem normalForm_opened_append (hd : directory ≠ []) (hr : root relative = [])
    (hb : slashed relative = relative) (ho : opened directory ≠ ['/', '/']) :
    normalForm (opened directory ++ relative) = root (opened directory) ++
      join (along (!(root (opened directory)).isEmpty) (inside (opened directory)) relative) := by
  have hslashed : slashed (opened directory ++ relative) = opened directory ++ relative := by
    rw [slashed_append, slashed_opened, hb]
  have hh := head?_ne_slash_of_root_eq_nil hr
  by_cases hone : opened directory = ['/']
  · have hroot : Rooting ('/' :: relative) ['/'] relative := .slash hh
    have hbare : Rooting ['/'] ['/'] [] := .slash (by simp)
    rw [hone] at hslashed ⊢
    rw [hbare.root_eq, hbare.inside_eq]
    exact normalForm_of_rooting (hslashed.symm ▸ hroot)
  by_cases hl : (opened directory).getLast? = some '/'
  · exact Closed.normalForm_append ⟨hl, hone, ho⟩ hslashed
  · -- Without a slash at its end, the directory is a drive.
    have hg : (directory.getLast? == some '/' || root directory == directory) = true := by
      by_contra hg
      exact hl (by rw [opened, if_neg hg, List.getLast?_concat])
    have hopened : opened directory = slashed directory := by
      rw [opened, if_pos hg, List.append_nil]
    have hlast : directory.getLast? ≠ some '/' := by
      intro hlast
      exact hl (by rw [hopened, getLast?_slashed, hlast]; rfl)
    have hself : root directory = directory := by simpa [hlast] using hg
    obtain ⟨drive, rfl, ha⟩ := exists_drive_of_root_eq_self hself hd hlast
    have hdrive : Rooting [drive, ':'] [drive, ':'] [] := .relative ha (by simp)
    have hroot : Rooting (drive :: ':' :: relative) [drive, ':'] relative := .relative ha hh
    rw [hopened, slashed_drive ha] at hslashed ⊢
    rw [hdrive.root_eq, hdrive.inside_eq]
    exact normalForm_of_rooting (hslashed.symm ▸ hroot)

/-- Whether a relative name leads below a directory that it is seen from. The directory is not a
root that a slash makes another root of, and the name does not climb but to enter again what it has
climbed out of. -/
structure StaysBelow (directory relative : List Char) : Prop
    extends Reenters directory relative where
  root : ¬ BackslashRoot directory
  server : slashed directory ≠ '/' :: '/' :: up
  bare : slashed directory = ['/', '/'] → climb relative = 0

theorem root_prefix_normalForm (hb : slashed cs = cs) : root cs <+: normalForm cs := by
  rw [normalForm_eq, hb]
  exact List.prefix_append _ _

theorem not_liesBelow_of_slash (hroot : normalForm directory = root (slashed directory))
    (h : normalForm directory ++ ['/'] <+: name) : ¬ LiesBelow directory name := by
  obtain ⟨more, rfl⟩ := h
  rintro ⟨rest, he, hfirst, -⟩
  rw [separator, if_pos hroot, List.append_nil, List.append_assoc] at he
  rw [← List.append_cancel_left he] at hfirst
  simp at hfirst

theorem not_liesBelow_of_backslashRoot (h : BackslashRoot directory)
    (hb : slashed relative = relative) :
    ¬ LiesBelow directory (normalForm (opened directory ++ relative)) := by
  have hslashed : slashed (opened directory ++ relative) = opened directory ++ relative := by
    rw [slashed_append, slashed_opened, hb]
  have hp := root_prefix_normalForm hslashed
  rcases h with rfl | rfl | rfl
  · obtain ⟨tail, ht⟩ := exists_root_eq relative
    have ho : opened ['\\'] ++ relative = '/' :: '/' :: relative := rfl
    refine not_liesBelow_of_slash (by decide) (List.IsPrefix.trans ⟨tail, ?_⟩ hp)
    rw [ho, ht]
    rfl
  · have ho : opened ['\\', '\\'] ++ relative = '/' :: '/' :: '/' :: relative := rfl
    refine not_liesBelow_of_slash (by decide) (List.IsPrefix.trans ⟨[], ?_⟩ hp)
    rw [ho, root_of_slashes]
    rfl
  · have ho : opened ['/', '\\'] ++ relative = '/' :: '/' :: '/' :: relative := rfl
    refine not_liesBelow_of_slash (by decide) (List.IsPrefix.trans ⟨[], ?_⟩ hp)
    rw [ho, root_of_slashes]
    rfl

/-- Below a directory whose normal form is a bare root lies what goes on with a segment. -/
theorem liesBelow_of_bare_root (hroot : normalForm directory = root (slashed directory))
    {first tail : List Char} (hw : '/' ∉ first) (hn : first ≠ [])
    (ht : tail = [] ∨ tail.head? = some '/') :
    LiesBelow directory (normalForm directory ++ (first ++ tail)) ↔ first ≠ up := by
  have hfirst : (first ++ tail).takeWhile (· != '/') = first := by
    rw [List.takeWhile_append_of_pos (ne_slash_of_not_mem hw)]
    rcases ht with rfl | ht
    · simp
    · obtain ⟨rest, rfl⟩ := List.head?_eq_some_iff.1 ht
      simp
  rw [LiesBelow, separator, if_pos hroot, List.append_nil]
  simp only [List.append_cancel_left_eq, exists_eq_left', hfirst, ne_eq, hn, not_false_eq_true,
    true_and]

theorem climb_join_eq_zero_iff (h : Normalized false segments) :
    climb (join segments) = 0 ↔ segments.head? ≠ some up := by
  rw [climb, resolve_join h]
  cases segments with
  | nil => simp
  | cons first more => by_cases hf : first = up <;> simp [hf]

theorem onward_join (h : Normalized false segments) : onward (join segments) = settled segments := by
  rw [onward, resolve_join h]

/-- Behind the root of a server that is not named, the first segment of a name becomes the server.
-/
theorem exists_normalForm_slashes_append {first : List Char} (hn : Normalized false (first :: more))
    (hlast : settled (first :: more) ≠ []) (hb : slashed (join (first :: more)) = join (first :: more)) :
    ∃ tail, (tail = [] ∨ tail.head? = some '/') ∧
      normalForm (['/', '/'] ++ join (first :: more)) = ['/', '/'] ++ (first ++ tail) := by
  have hp := hn.proper first List.mem_cons_self
  have hslashed : slashed (['/', '/'] ++ join (first :: more)) =
      ['/', '/'] ++ join (first :: more) := by
    rw [slashed_append, hb]
    rfl
  by_cases hm : more = []
  · subst more
    have hup : first ≠ up := by
      rintro rfl
      exact hlast rfl
    have hone : Normalized true [first] := (normalized_nil true).concat hp fun h => absurd h hup
    have hr : Rooting (['/', '/'] ++ join [first]) ['/', '/'] (join [first]) := by
      rw [join_singleton]
      exact .bare hp.whole
    refine ⟨[], .inl rfl, ?_⟩
    rw [normalForm_of_rooting (hslashed.symm ▸ hr), resolve_join hone, join_singleton,
      List.append_nil]
  · have hj : join (first :: more) = first ++ '/' :: join more := by
      rw [join_cons, flatMap_slash hm]
    have hr : Rooting (['/', '/'] ++ join (first :: more)) ('/' :: '/' :: first ++ ['/'])
        (join more) := hj ▸ .server hp.whole
    refine ⟨'/' :: join (resolve true (join more)), .inr rfl, ?_⟩
    rw [normalForm_of_rooting (hslashed.symm ▸ hr)]
    simp

/-- Below that root lies what does not climb. -/
theorem liesBelow_of_unnamed_server (hs : slashed directory = ['/', '/'])
    (hn : Normalized false segments) (hlast : settled segments ≠ [])
    (hb : slashed (join segments) = join segments) :
    LiesBelow directory (normalForm (['/', '/'] ++ join segments)) ↔
      climb (join segments) = 0 := by
  have hroot : normalForm directory = root (slashed directory) := by
    rw [← normalForm_slashed directory, hs]
    decide
  have hd : normalForm directory = ['/', '/'] := by
    rw [hroot, hs]
    decide
  cases segments with
  | nil => exact absurd rfl hlast
  | cons first more =>
    have hp := hn.proper first List.mem_cons_self
    obtain ⟨tail, ht, hform⟩ := exists_normalForm_slashes_append hn hlast hb
    rw [hform, ← hd, liesBelow_of_bare_root hroot hp.whole hp.ne_nil ht, climb_join_eq_zero_iff hn]
    simp

theorem opened_of_server (hs : slashed directory = '/' :: '/' :: server) (hw : '/' ∉ server)
    (hn : server ≠ []) : opened directory = '/' :: '/' :: server ++ ['/'] := by
  have hl : directory.getLast? ≠ some '/' := by
    intro hl
    have hlast := getLast?_slashed directory
    obtain ⟨first, more, rfl⟩ := List.exists_cons_of_ne_nil hn
    rw [hl, hs, List.getLast?_cons_cons, List.getLast?_cons_cons] at hlast
    exact hw (List.mem_of_getLast? hlast)
  have hself : root directory ≠ directory := by
    intro hr
    have hd : directory ≠ [] := by
      rintro rfl
      simp [slashed] at hs
    obtain ⟨drive, rfl, -⟩ := exists_drive_of_root_eq_self hr hd hl
    simp [slashed] at hs
  rw [opened, hs, if_neg (by simp [hl, hself])]

theorem rooting_opened_of_server (hs : slashed directory = '/' :: '/' :: server) (hw : '/' ∉ server)
    (hn : server ≠ []) : Rooting (opened directory) ('/' :: '/' :: server ++ ['/']) [] := by
  rw [opened_of_server hs hw hn]
  exact .server hw

/-- Behind a server a name enters its segments at the root. -/
theorem normalForm_opened_server_append (hs : slashed directory = '/' :: '/' :: server)
    (hw : '/' ∉ server) (hn : server ≠ []) (hr : root relative = [])
    (hb : slashed relative = relative) :
    normalForm (opened directory ++ relative) =
      '/' :: '/' :: server ++ '/' :: join (onward relative) := by
  have hd : directory ≠ [] := by
    rintro rfl
    simp [slashed] at hs
  have htwo : opened directory ≠ ['/', '/'] := by
    rw [opened_of_server hs hw hn]
    simp [hn]
  have hopened := rooting_opened_of_server hs hw hn
  rw [normalForm_opened_append hd hr hb htwo, hopened.root_eq, hopened.inside_eq]
  change _ ++ join (along true [] relative) = _
  rw [along_of_rooted (normalized_nil true)]
  simp

/-- Behind a server, a name leads below it, unless the server is the segment that climbs. -/
theorem liesBelow_of_server (hs : slashed directory = '/' :: '/' :: server) (hw : '/' ∉ server)
    (hserver : server ≠ []) (hr : root relative = []) (hb : slashed relative = relative)
    (hn : onward relative ≠ []) :
    LiesBelow directory (normalForm (opened directory ++ relative)) ↔ server ≠ up := by
  have hbare : Rooting (slashed directory) ['/', '/'] server := hs ▸ .bare hw
  have hsingle : resolve true server = (push true [] server).reverse := by
    rw [resolve, List.splitOn_eq_singleton hw]
    rfl
  have hdform : normalForm directory = ['/', '/'] ++ join (resolve true server) :=
    normalForm_of_rooting hbare
  rw [normalForm_opened_server_append hs hw hserver hr hb]
  by_cases hplain : push true [] server = []
  · have hroot : normalForm directory = root (slashed directory) := by
      rw [hdform, hsingle, hplain, hbare.root_eq]
      rfl
    have hname : '/' :: '/' :: server ++ '/' :: join (onward relative) =
        normalForm directory ++ (server ++ '/' :: join (onward relative)) := by
      rw [hroot, hbare.root_eq]
      rfl
    rw [hname]
    exact liesBelow_of_bare_root hroot hw hserver (.inr rfl)
  · have hone : push true [] server = [server] := (push_nil true server).resolve_left hplain
    have hup : server ≠ up := fun h => hplain (push_nil_eq_nil.2 (.inr h))
    have hinside : Normalized true [server] := by
      have hnormal := normalized_resolve true server
      rwa [hsingle, hone] at hnormal
    have hname : '/' :: '/' :: server ++ '/' :: join (onward relative) =
        root (slashed directory) ++ join (server :: onward relative) := by
      rw [hbare.root_eq, join_cons, flatMap_slash hn]
      rfl
    have htarget : Normalized true (server :: onward relative) :=
      (normalized_onward relative).cons_of_ne_up (hinside.proper server (by simp)) hup
    rw [hsingle, hone] at hdform
    rw [hname, liesBelow_append_join_iff (hbare.root_eq ▸ hdform) hinside htarget]
    exact iff_of_true ⟨onward relative, rfl, hn, (normalized_onward relative).head?_ne_up⟩ hup

theorem reenters_of_inside_eq_nil (hroot : root (opened directory) ≠ [])
    (h : inside (opened directory) = []) (hn : onward relative ≠ []) : Reenters directory relative where
  reach hz := absurd hz hroot
  enters := by
    rw [h, show settled [] = [] from rfl, List.drop_nil]
    exact List.nil_prefix
  further := by
    rw [h, show settled [] = [] from rfl, List.drop_nil]
    exact hn.symm

theorem opened_eq_or (directory : List Char) :
    opened directory = slashed directory ∨ opened directory = slashed directory ++ ['/'] := by
  unfold opened
  split
  · exact .inl (List.append_nil _)
  · exact .inr rfl

/-- A directory that keeps its root when it is opened is no server, and an unnamed one stays as it
is. -/
theorem opened_of_root_eq (h : root (opened directory) = root (slashed directory)) :
    slashed directory ≠ '/' :: '/' :: up ∧
      (slashed directory = ['/', '/'] ↔ opened directory = ['/', '/']) := by
  have hthree : root ['/', '/', '/'] ≠ root ['/', '/'] := by decide
  have htwo : root ['/', '/'] ≠ root ['/'] := by decide
  constructor
  · intro hs
    rw [opened_of_server hs (by decide) (by decide), hs] at h
    exact absurd h (by decide)
  · rcases opened_eq_or directory with ho | ho
    · rw [ho]
    · rw [ho] at h ⊢
      constructor
      · intro hs
        rw [hs] at h
        exact absurd h hthree
      · intro hs
        rw [eq_slash_of_append_slash hs] at h
        exact absurd h htwo

/-- A relative name leads below a directory just if it stays below. -/
theorem liesBelow_combined_iff (hd : normalForm directory ≠ []) (hr : root relative = [])
    (hb : slashed relative = relative) (hj : relative = join segments)
    (hs : Normalized false segments) (hn : onward relative ≠ []) :
    LiesBelow directory (combined directory relative) ↔ StaysBelow directory relative := by
  have hne : directory ≠ [] := by
    rintro rfl
    exact hd (by decide)
  rw [combined_of_relative_name hne hr, hb]
  by_cases hroots : BackslashRoot directory
  · exact iff_of_false (not_liesBelow_of_backslashRoot hroots hb) fun h => h.root hroots
  rcases opened_cases hne with ⟨hroot, hinside⟩ | h | ⟨server, hserver, hnil, hw⟩
  · obtain ⟨hup, htwo⟩ := opened_of_root_eq hroot
    by_cases ho : opened directory = ['/', '/']
    · have hunnamed : Rooting (opened directory) ['/', '/'] [] := ho ▸ .bare (by simp)
      have hre : Reenters directory relative :=
        reenters_of_inside_eq_nil (by simp [hunnamed.root_eq]) hunnamed.inside_eq hn
      subst relative
      rw [ho, liesBelow_of_unnamed_server (htwo.2 ho) hs (onward_join hs ▸ hn) hb]
      exact ⟨fun h => ⟨hre, hroots, hup, fun _ => h⟩, fun h => h.bare (htwo.2 ho)⟩
    · rw [normalForm_opened_append hne hr hb ho, hroot, hinside,
        liesBelow_append_join_iff (normalForm_eq directory) (normalized_inside _)
          (normalized_along (normalized_inside _) _),
        along_extends_iff (normalized_inside _)]
      rw [← hroot, ← hinside]
      constructor
      · rintro ⟨hreach, henters, hfurther⟩
        refine ⟨⟨fun hz => hreach (by simp [hz]), henters, hfurther⟩, hroots, hup, ?_⟩
        exact fun h => absurd (htwo.1 h) ho
      · intro h
        exact ⟨fun hz => h.reach (by simpa using hz), h.enters, h.further⟩
  · exact absurd h hroots
  · rw [liesBelow_of_server hserver hw hnil hr hb hn]
    have hopened := rooting_opened_of_server hserver hw hnil
    have hre : Reenters directory relative :=
      reenters_of_inside_eq_nil (by simp [hopened.root_eq]) hopened.inside_eq hn
    constructor
    · intro hup
      exact ⟨hre, hroots, by simpa [hserver] using hup, by simp [hserver, hnil]⟩
    · intro h
      simpa [hserver] using h.server

end ScriptHost.FileName
