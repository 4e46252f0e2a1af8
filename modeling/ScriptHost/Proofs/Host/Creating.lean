import ScriptHost.Proofs.Disk.Plain
import ScriptHost.Proofs.FileName.Layers
import ScriptHost.Proofs.Host.Directories

/-! Files that a host writes to a disk without links: when that goes well, what it makes of the
disk, and that nothing is left of an attempt that fails. -/

namespace ScriptHost

open FileName

variable {disk made : Disk} {purpose : Purpose} {path directory name : String}
  {names above : List String} {start : Place} {bytes : ByteArray} {front downs : List (List Char)}
  {last : List Char}

theorem FileName.Layered.steps_eq (h : Layered path front downs) (hn : downs ≠ []) :
    Disk.steps path =
      (front.filter (!·.isEmpty)).map String.ofList ++ downs.map String.ofList := by
  have hbusy : downs.filter (!·.isEmpty) = downs :=
    List.filter_eq_self.2 fun segment hs => by simpa using (h.downs segment hs).1.ne_nil
  have hslash : path.toList.getLast? ≠ some '/' := by
    intro hl
    obtain ⟨before, hb⟩ := List.getLast?_eq_some_iff.1 hl
    have hsplit := List.splitOn_append_cons_self (a := '/') before []
    rw [← hb, h.split, List.splitOn_nil] at hsplit
    have hlast := congrArg List.getLast? hsplit
    rw [List.getLast?_append_of_ne_nil _ hn, List.getLast?_concat] at hlast
    exact (h.downs [] (List.mem_of_getLast? hlast)).1.ne_nil rfl
  simp only [Disk.steps, h.split]
  rw [if_neg (by simp [hslash]), List.filter_append, hbusy, List.map_append]

namespace Disk

/-- A path that a disk can have a file under: no NUL is in it, and neither it nor one of its names
is too long. -/
structure Admits (path : String) : Prop where
  whole : '\x00' ∉ path.toList
  short : path.utf8ByteSize ≤ maxPath
  names : ∀ name ∈ steps path, name.utf8ByteSize ≤ maxName

theorem ne_empty_of_mem_enclosing (h : directory ∈ enclosing path) : directory ≠ "" := by
  rintro rfl
  exact (prefix_of_mem_enclosing h).2 rfl

theorem Followable.enclosing (hf : Followable path) (h : directory ∈ enclosing path) :
    Followable directory where
  whole hm := hf.whole ((prefix_of_mem_enclosing h).1.subset hm)
  ne_empty := ne_empty_of_mem_enclosing h
  size_le := by
    refine Nat.le_trans ?_ hf.size_le
    rw [← Text.byteLength_toList, ← Text.byteLength_toList]
    exact byteLength_le_of_sublist (prefix_of_mem_enclosing h).1.sublist

theorem origin_of_mem_enclosing (h : directory ∈ enclosing path) (place : Place) :
    origin directory place = origin path place := by
  obtain ⟨more, hm⟩ := (prefix_of_mem_enclosing h).1
  obtain ⟨c, rest, hc⟩ := List.exists_cons_of_ne_nil (l := directory.toList)
    fun he => ne_empty_of_mem_enclosing h (String.toList_eq_nil_iff.1 he)
  rw [hc] at hm
  rw [origin, origin, ← hm, hc]
  rfl

/-- Where the segments of a path that stand for no entry of a directory lead to. -/
def outset (disk : Disk) (path : String) (front : List (List Char)) : Place :=
  ((front.filter (!·.isEmpty)).map String.ofList).foldl Place.enter (origin path disk.current)

theorem eq_dots_of_front {segment : List Char} (h : isIdle segment = true ∨ segment = up) :
    String.ofList segment = "" ∨ String.ofList segment = "." ∨ String.ofList segment = ".." := by
  rcases h with h | rfl
  · rcases (by simpa [isIdle] using h : segment = [] ∨ segment = ['.']) with rfl | rfl
    · exact .inl rfl
    · exact .inr (.inl rfl)
  · exact .inr (.inr rfl)

theorem Stands.foldl_enter {place : Place} (h : disk.Stands place)
    (hn : ∀ name ∈ names, name = "" ∨ name = "." ∨ name = "..") :
    disk.Stands (names.foldl Place.enter place) := by
  induction names generalizing place with
  | nil => exact h
  | cons name names ih =>
    obtain ⟨hfirst, hn⟩ := List.forall_mem_cons.1 hn
    refine ih ?_ hn
    rcases hfirst with rfl | rfl | rfl
    · exact h
    · exact h
    · exact h.parent

/-- A path of segments that stand for no entry leads to a directory. -/
theorem isDirectory_of_dots (hf : Followable path)
    (hd : ∀ segment ∈ path.toList.splitOn '/', isIdle segment = true ∨ segment = up) :
    disk.isDirectory path = true := by
  have hsteps : ∀ name ∈ steps path, name = "" ∨ name = "." ∨ name = ".." := by
    have hnames : ∀ name ∈ ((path.toList.splitOn '/').filter (!·.isEmpty)).map String.ofList,
        name = "" ∨ name = "." ∨ name = ".." := by
      intro name hm
      obtain ⟨segment, hs, rfl⟩ := List.mem_map.1 hm
      exact eq_dots_of_front (hd segment (List.mem_filter.1 hs).1)
    intro name hm
    unfold steps at hm
    dsimp only at hm
    split at hm
    · rcases List.mem_append.1 hm with hm | hm
      · exact hnames name hm
      · exact .inl (List.mem_singleton.1 hm)
    · exact hnames name hm
  have hleads : Leads disk .look maxLinks (steps path ++ []) (origin path disk.current)
      (.directory _) :=
    Leads.before hsteps .arrived
  rw [List.append_nil] at hleads
  exact isDirectory_iff.2 ⟨hf, _, hleads⟩

theorem sought_of_plain {segment : List Char} (h : Proper segment ∧ segment ≠ up)
    (hs : (String.ofList segment).utf8ByteSize ≤ maxName) : Sought (String.ofList segment) := by
  have hne {other : List Char} (ho : segment ≠ other) : String.ofList segment ≠ .ofList other :=
    fun he => ho (String.ofList_injective he)
  have hdot : segment ≠ ['.'] := by
    rintro rfl
    exact absurd h.1.busy (by decide)
  exact ⟨hne h.1.ne_nil, hne hdot, hne h.2, hs⟩

/-- A layered path leads from where its first segments lead to along its other ones. -/
theorem reaches_of_layered (h : Layered path front downs) (hn : downs ≠ []) (hf : Followable path)
    (hs : ∀ segment ∈ downs, (String.ofList segment).utf8ByteSize ≤ maxName)
    (hr : disk.current.removed = 0) :
    disk.Reaches path (disk.outset path front) (downs.map String.ofList) where
  followable := hf
  steps := by
    refine ⟨_, h.steps_eq hn, fun name hm => ?_, rfl⟩
    obtain ⟨segment, hsegment, rfl⟩ := List.mem_map.1 hm
    exact eq_dots_of_front (h.front segment (List.mem_filter.1 hsegment).1)
  sought := by
    intro name hm
    obtain ⟨segment, hsegment, rfl⟩ := List.mem_map.1 hm
    exact sought_of_plain (h.downs segment hsegment) (hs segment hsegment)
  removed := by
    refine Place.removed_foldl_enter ?_ _
    unfold origin
    split
    · rfl
    · exact hr

/-- What comes of making the directories down to a path: nothing if it is there, all of it if no
file is in the way, and an error and nothing else if one is. -/
structure MakesDownTo (disk : Disk) (above : List String) (result : WriteAnswer × Disk) : Prop where
  there : disk.entryAt? above = some .directory → result = (.ok (), disk)
  free : (∀ path, path <+: above → ∀ bytes, disk.entryAt? path ≠ some (.file bytes)) →
    ∃ made, result = (.ok (), made) ∧ made.current = disk.current ∧
      ∀ path, made.entryAt? path =
        if path <+: above then some .directory else disk.entryAt? path
  barred : (∃ path bytes, path <+: above ∧ disk.entryAt? path = some (.file bytes)) →
    ∃ error, result = (.error error, disk)

theorem entryAt?_on_way (h : disk.entryAt? names = some .directory) (hp : above <+: names) :
    disk.entryAt? above = some .directory := by
  by_cases he : above = names
  · rwa [he]
  · exact Node.entryAt?_on_way h hp he

theorem makesDownTo_of_there (h : disk.entryAt? above = some .directory) :
    disk.MakesDownTo above (.ok (), disk) where
  there _ := rfl
  free _ := by
    refine ⟨disk, rfl, rfl, fun path => ?_⟩
    split
    · exact entryAt?_on_way h ‹_›
    · rfl
  barred := by
    rintro ⟨path, bytes, hp, he⟩
    simp [entryAt?_on_way h hp] at he

/-- A directory is made in one that is there, where nothing else is in its place. -/
theorem exists_makeDirectory_eq (hr : disk.Reaches directory start (names ++ [name]))
    (hs : disk.Stands disk.current) (ha : disk.entryAt? (start.path ++ names) = some .directory)
    (hn : disk.entryAt? (start.path ++ names ++ [name]) = none) :
    ∃ made, disk.makeDirectory directory = (.ok (), made) ∧
      Gains disk made (start.path ++ names ++ [name]) .directory := by
  have hres := (hr.resolve_last .lookAtLink ha).1 hn
  have hc : disk.createDirectory directory =
      .ok (disk.put (start.path ++ names ++ [name]) (.directory [])) := by
    rw [createDirectory, hres]
  obtain ⟨⟨path, hpath, hg⟩, -⟩ := exists_gains_of_createDirectory hc hs
  obtain rfl : start.path ++ names ++ [name] = path := by
    rw [hres] at hpath
    exact Spot.missing.inj (Except.ok.inj hpath)
  exact ⟨_, by rw [makeDirectory, hc], hg⟩

/-- No directory is made in the place of a file. -/
theorem exists_makeDirectory_eq_error (hr : disk.Reaches directory start (names ++ [name]))
    (hd : disk.isDirectory directory = false)
    (ha : disk.entryAt? (start.path ++ names) = some .directory)
    (hf : disk.entryAt? (start.path ++ names ++ [name]) = some (.file bytes)) :
    ∃ error, disk.makeDirectory directory = (.error error, disk) := by
  have hc : disk.createDirectory directory = .error .exists := by
    rw [createDirectory, (hr.resolve_last .lookAtLink ha).2.1 bytes hf]
  refine ⟨.createDirectory directory .exists, ?_⟩
  simp [makeDirectory, hc, hd]

theorem Linkless.entryAt?_cases (hl : disk.Linkless) (path : List String) :
    disk.entryAt? path = none ∨ (∃ bytes, disk.entryAt? path = some (.file bytes)) ∨
      disk.entryAt? path = some .directory := by
  cases he : disk.entryAt? path with
  | none => exact .inl rfl
  | some e =>
    cases e with
    | file bytes => exact .inr (.inl ⟨bytes, rfl⟩)
    | link target => exact (hl path target he).elim
    | directory => exact .inr (.inr rfl)

theorem Stands.of_made (hs : disk.Stands disk.current) (hc : made.current = disk.current)
    (he : ∀ path, made.entryAt? path =
      if path <+: above then some .directory else disk.entryAt? path) :
    made.Stands made.current := by
  rw [Stands, hc, he]
  split
  · rfl
  · exact hs

theorem not_prefix_of_concat (names : List String) (name : String) : ¬ names ++ [name] <+: names := by
  intro hp
  simpa using hp.length_le

/-- One more directory is made in those that are made. -/
theorem MakesDownTo.concat {outer : List String}
    (hm : disk.MakesDownTo (start.path ++ names) (disk.makeDirectories outer))
    (hl : disk.Linkless) (hs : disk.Stands disk.current)
    (hr : disk.Reaches directory start (names ++ [name])) :
    disk.MakesDownTo (start.path ++ names ++ [name])
      (disk.makeDirectories (directory :: outer)) := by
  have hiff := hr.isDirectory_iff hl hs
  rw [← List.append_assoc] at hiff
  cases hd : disk.isDirectory directory with
  | true =>
    rw [makeDirectories_of_isDirectory hd]
    exact makesDownTo_of_there (hiff.1 hd)
  | false =>
    have hnot : disk.entryAt? (start.path ++ names ++ [name]) ≠ some .directory :=
      fun he => by simp [hiff.2 he] at hd
    refine ⟨fun h => (hnot h).elim, fun hfree => ?_, ?_⟩
    · obtain ⟨made, hmade, hcurrent, hentries⟩ :=
        hm.free fun path hp => hfree path (hp.trans (List.prefix_append _ _))
      have hstands : made.Stands made.current := hs.of_made hcurrent hentries
      have hnone : made.entryAt? (start.path ++ names ++ [name]) = none := by
        rw [hentries, if_neg (not_prefix_of_concat _ _)]
        rcases hl.entryAt?_cases (start.path ++ names ++ [name]) with he | ⟨bytes, he⟩ | he
        · exact he
        · exact (hfree _ (List.prefix_refl _) bytes he).elim
        · exact (hnot he).elim
      obtain ⟨later, hlater, hg⟩ := exists_makeDirectory_eq (hr.of_current hcurrent) hstands
        (by rw [hentries, if_pos (List.prefix_refl _)]) hnone
      refine ⟨later, (makeDirectories_of_ok hd hmade).trans hlater, hg.current.trans hcurrent, ?_⟩
      intro path
      simp only [hg.entries, hentries, List.prefix_concat_iff]
      by_cases hp : path = start.path ++ names ++ [name]
      · simp only [hp, true_or, if_true]
      · simp only [hp, false_or, if_false]
    · rintro ⟨path, bytes, hp, hf⟩
      rcases List.prefix_concat_iff.1 hp with rfl | hp
      · have ha : disk.entryAt? (start.path ++ names) = some .directory :=
          Node.entryAt?_on_way hf (List.prefix_append _ _) (by simp)
        obtain ⟨error, herror⟩ := exists_makeDirectory_eq_error hr hd ha hf
        exact ⟨error, (makeDirectories_of_ok hd (hm.there ha)).trans herror⟩
      · obtain ⟨error, herror⟩ := hm.barred ⟨path, bytes, hp, hf⟩
        exact ⟨error, makeDirectories_of_error hd herror⟩

/-- The directories of a layered path are made down to the one that the file of the path lies in. -/
theorem makesDownTo_enclosing (h : Layered path front (downs ++ [last])) (hf : Followable path)
    (hsize : ∀ segment ∈ downs, (String.ofList segment).utf8ByteSize ≤ maxName)
    (hl : disk.Linkless) (hr : disk.current.removed = 0) (hs : disk.Stands disk.current) :
    disk.MakesDownTo ((disk.outset path front).path ++ downs.map String.ofList)
      (disk.makeDirectories (enclosing path)) := by
  induction downs using List.reverseRecOn generalizing path last with
  | nil =>
    have hstands : disk.entryAt? (disk.outset path front).path = some .directory := by
      refine (hs.origin path).foldl_enter fun name hm => ?_
      obtain ⟨segment, hsegment, rfl⟩ := List.mem_map.1 hm
      exact eq_dots_of_front (h.front segment (List.mem_filter.1 hsegment).1)
    rw [List.map_nil, List.append_nil]
    rcases h.outermost with he | ⟨directory, outer, he, hdots⟩
    · rw [he]
      exact makesDownTo_of_there hstands
    · have hdirectory : disk.isDirectory directory = true :=
        isDirectory_of_dots (hf.enclosing (he ▸ List.mem_cons_self)) hdots
      rw [he, makeDirectories_of_isDirectory hdirectory]
      exact makesDownTo_of_there hstands
  | append_singleton downs inner ih =>
    obtain ⟨directory, hd, he⟩ := h.directory
    have hmem : directory ∈ FileName.enclosing path := he ▸ List.mem_cons_self
    have hout : disk.outset directory front = disk.outset path front := by
      rw [outset, outset, origin_of_mem_enclosing hmem]
    have hreach := reaches_of_layered hd (by simp) (hf.enclosing hmem) hsize hr
    have hmade := ih hd (hf.enclosing hmem) fun segment hm =>
      hsize segment (List.mem_append_left _ hm)
    rw [List.map_append, List.map_singleton, hout] at hreach
    rw [hout] at hmade
    rw [he, List.map_append, List.map_singleton, ← List.append_assoc]
    exact hmade.concat hl hs hreach

/-- Nothing is in the way of a file: no other file above it, and no directory in its place. -/
structure IsFree (disk : Disk) (position : List String) : Prop where
  above : ∀ above, above <+: position → above ≠ position →
    ∀ bytes, disk.entryAt? above ≠ some (.file bytes)
  place : disk.entryAt? position ≠ some .directory

/-- What comes of writing bytes to a file: they stand there, with directories all the way down, or
something is in the way, and then nothing is changed. -/
structure WritesAt (disk : Disk) (position : List String) (bytes : ByteArray)
    (result : WriteAnswer × Disk) : Prop where
  written : disk.IsFree position → ∃ made, result = (.ok (), made) ∧
    made.current = disk.current ∧ ∀ path, made.entryAt? path =
      if path = position then some (.file bytes)
      else if path <+: position then some .directory else disk.entryAt? path
  barred : ¬ disk.IsFree position → ∃ error, result = (.error error, disk)

/-- Bytes are written into a directory, where there is nothing or a file. -/
theorem exists_writeBytes_eq (hr : disk.Reaches path start (names ++ [name]))
    (hs : disk.Stands disk.current) (ha : disk.entryAt? (start.path ++ names) = some .directory)
    (ho : disk.entryAt? (start.path ++ names ++ [name]) = none ∨
      ∃ old, disk.entryAt? (start.path ++ names ++ [name]) = some (.file old))
    (bytes : ByteArray) : ∃ made, disk.writeBytes path bytes = .ok made ∧
      Gains disk made (start.path ++ names ++ [name]) (.file bytes) := by
  obtain ⟨hmissing, hfile, -⟩ := hr.resolve_last .create ha
  have hw : disk.writeBytes path bytes =
      .ok (disk.put (start.path ++ names ++ [name]) (.file bytes)) := by
    rcases ho with ho | ⟨old, ho⟩
    · rw [writeBytes, hmissing ho]
    · rw [writeBytes, hfile old ho]
  obtain ⟨found, hfound, hg⟩ := exists_gains_of_writeBytes hw hs
  obtain rfl : start.path ++ names ++ [name] = found := by
    rcases ho with ho | ⟨old, ho⟩
    · rw [hmissing ho] at hfound
      simpa using hfound
    · rw [hfile old ho] at hfound
      simpa using hfound
  exact ⟨_, hw, hg⟩

theorem MakesDownTo.writesAt {entry text : String} (hn : normalize name = path)
    (hm : disk.MakesDownTo (start.path ++ names) (disk.makeDirectories (enclosing path)))
    (hr : disk.Reaches path start (names ++ [entry])) (hl : disk.Linkless)
    (hs : disk.Stands disk.current) :
    disk.WritesAt (start.path ++ names ++ [entry]) text.toUTF8 (disk.writeText name text) where
  written hfree := by
    obtain ⟨made, hmade, hcurrent, hentries⟩ := hm.free fun above hp => hfree.above above
      (hp.trans (List.prefix_append _ _)) fun he => not_prefix_of_concat _ _ (he ▸ hp)
    have hstands : made.Stands made.current := hs.of_made hcurrent hentries
    have hplace : made.entryAt? (start.path ++ names ++ [entry]) = none ∨
        ∃ old, made.entryAt? (start.path ++ names ++ [entry]) = some (.file old) := by
      rw [hentries, if_neg (not_prefix_of_concat _ _)]
      rcases hl.entryAt?_cases (start.path ++ names ++ [entry]) with he | he | he
      · exact .inl he
      · exact .inr he
      · exact (hfree.place he).elim
    obtain ⟨later, hlater, hg⟩ := exists_writeBytes_eq (hr.of_current hcurrent) hstands
      (by rw [hentries, if_pos (List.prefix_refl _)]) hplace text.toUTF8
    refine ⟨later, ?_, hg.current.trans hcurrent, fun path => ?_⟩
    · simp only [writeText, hn, hmade, hlater]
    · simp only [hg.entries, hentries, List.prefix_concat_iff]
      by_cases hp : path = start.path ++ names ++ [entry]
      · simp only [hp, if_true]
      · simp only [hp, if_false, false_or]
  barred hbarred := by
    by_cases hd : disk.entryAt? (start.path ++ names ++ [entry]) = some .directory
    · have ha : disk.entryAt? (start.path ++ names) = some .directory :=
        entryAt?_on_way hd (List.prefix_append _ _)
      obtain ⟨place, hres⟩ := (hr.resolve_last .create ha).2.2 hd
      have hw : disk.writeBytes path text.toUTF8 = .error .isDirectory := by
        rw [writeBytes, hres]
      exact ⟨.write name .isDirectory, by simp only [writeText, hn, hm.there ha, hw]⟩
    · obtain ⟨above, hp, hne, bytes, hf⟩ : ∃ above, above <+: start.path ++ names ++ [entry] ∧
          above ≠ start.path ++ names ++ [entry] ∧
          ∃ bytes, disk.entryAt? above = some (.file bytes) := by
        by_contra hnone
        push Not at hnone
        exact hbarred ⟨hnone, hd⟩
      obtain ⟨error, herror⟩ :=
        hm.barred ⟨above, bytes, (List.prefix_concat_iff.1 hp).resolve_left hne, hf⟩
      exact ⟨error, by simp only [writeText, hn, herror]⟩

/-- On a disk without links, a text is written to the file of a name as long as nothing is in the
way. -/
theorem writesAt_writeText {text : String} (hn : normalize name = path)
    (h : Layered path front (downs ++ [last])) (hf : Followable path)
    (hsize : ∀ segment ∈ downs ++ [last], (String.ofList segment).utf8ByteSize ≤ maxName)
    (hl : disk.Linkless) (hr : disk.current.removed = 0) (hs : disk.Stands disk.current) :
    disk.WritesAt (disk.located path) text.toUTF8 (disk.writeText name text) := by
  have hreach := reaches_of_layered h (by simp) hf hsize hr
  rw [List.map_append, List.map_singleton] at hreach
  have hmade := makesDownTo_enclosing h hf
    (fun segment hm => hsize segment (List.mem_append_left _ hm)) hl hr hs
  rw [hreach.located, ← List.append_assoc]
  exact hmade.writesAt hn hreach hl hs

theorem admits_of_writeBytes (h : disk.writeBytes path bytes = .ok made) : Admits path := by
  obtain ⟨spot, hres⟩ : ∃ spot, disk.resolve .create path = .ok spot := by
    unfold writeBytes at h
    split at h
    · exact ⟨_, ‹_›⟩
    · exact ⟨_, ‹_›⟩
    · cases h
    · cases h
  obtain ⟨hf, hleads⟩ := resolve_eq_ok_iff.1 hres
  exact ⟨hf.whole, hf.size_le, hleads.size_le⟩

theorem Admits.followable (ha : Admits path) (h : Layered path front (downs ++ [last])) :
    Followable path where
  whole := ha.whole
  ne_empty := by
    rintro rfl
    have hsplit : [] ++ [[]] = (front ++ downs) ++ [last] := by
      rw [List.append_assoc, ← h.split]
      rfl
    obtain ⟨-, hlast⟩ := List.append_inj' hsplit rfl
    exact (h.downs last (by simp)).1.ne_nil (List.cons.inj hlast).1.symm
  size_le := ha.short

theorem Admits.size_le (ha : Admits path) (h : Layered path front (downs ++ [last])) :
    ∀ segment ∈ downs ++ [last], (String.ofList segment).utf8ByteSize ≤ maxName := by
  intro segment hs
  refine ha.names _ ?_
  rw [h.steps_eq (by simp)]
  exact List.mem_append_right _ (List.mem_map_of_mem hs)

end Disk

/-- A host that writes to files makes what is missing and nothing else. On a disk without links, and
with a host that knows of directories only what is so, take a name with a segment below its root,
the last of which does not climb. The write succeeds just when the disk admits the name and nothing
is in the way. Then the file holds the data, behind a byte order mark if that was asked for, there
are directories all the way down to it, and what the host knows is still so. A write that fails
records no output, and leaves the disk alone if it admits the name. -/
theorem writeFile_makes_what_is_missing (host : Host) (disk : Disk) (name data : String)
    (mark : Bool) (segments : List (List Char)) (last : List Char) (hw : host.write = .file)
    (hr : host.redirect = none) (hk : host.KnowsRightly disk) (hl : disk.Linkless)
    (hc : disk.current.removed = 0) (hs : disk.Stands disk.current)
    (hi : inside (slashed name.toList) = segments ++ [last]) (hu : last ≠ up) :
    let position := disk.located (normalize name)
    let text := Text.withByteOrderMark mark data
    let written := host.writeFile disk name data mark
    (written.answer = .ok () ↔ Disk.Admits (normalize name) ∧ disk.IsFree position) ∧
    (written.answer = .ok () → written.disk.current = disk.current ∧
      (∀ path, written.disk.entryAt? path =
        if path = position then some (.file text.toUTF8)
        else if path <+: position then some .directory else disk.entryAt? path) ∧
      written.host.outputs = host.outputs.insert name text ∧
      written.host.KnowsRightly written.disk) ∧
    (written.answer ≠ .ok () → written.host.outputs = host.outputs ∧
      (Disk.Admits (normalize name) → written.disk = disk)) := by
  intro position text written
  obtain ⟨front, downs, entry, hlayered⟩ := exists_layered_of_inside hi hu
  have hlost : written.answer ≠ .ok () → written.host.outputs = host.outputs := by
    intro hn
    rcases host.writeFile_cases disk name data mark with
      ⟨known, ha, -, -⟩ | ⟨known, error, -, -, hh⟩
    · exact (hn ha).elim
    · rw [hh]
  by_cases ha : Disk.Admits (normalize name)
  · have hto : host.writesToDisk = true := by simp [Host.writesToDisk, hw, hr]
    have hwrites : disk.WritesAt position text.toUTF8 (disk.writeText name text) :=
      Disk.writesAt_writeText rfl hlayered (ha.followable hlayered) (ha.size_le hlayered) hl hc hs
    obtain ⟨heq, hknow, -⟩ :=
      Host.writeDisk_eq_writeText hk hs (Disk.nameable_of_size_le ha.short) data mark
    obtain ⟨known, hafter⟩ := host.exists_writeDisk_eq disk name data mark
    have hwritten : written = _ := Host.writeFile_of_writesToDisk hto data mark
    rw [← heq] at hwrites
    cases hd : host.writeDisk disk name data mark with
    | mk answer after later =>
      rw [hd] at hwrites hknow hwritten hafter
      obtain rfl : after = { host with known := known } := hafter
      by_cases hfree : disk.IsFree position
      · obtain ⟨made, hmade, hcurrent, hentries⟩ := hwrites.written hfree
        obtain ⟨rfl, rfl⟩ := Prod.mk.inj hmade
        rw [hwritten]
        exact ⟨⟨fun _ => ⟨ha, hfree⟩, fun _ => rfl⟩,
          fun _ => ⟨hcurrent, hentries, rfl, hknow⟩, fun h => (h rfl).elim⟩
      · obtain ⟨error, herror⟩ := hwrites.barred hfree
        obtain ⟨rfl, rfl⟩ := Prod.mk.inj herror
        have hn : written.answer ≠ .ok () := by simp [hwritten]
        refine ⟨⟨fun h => (hn h).elim, fun h => (hfree h.2).elim⟩, fun h => (hn h).elim,
          fun _ => ⟨hlost hn, fun _ => by rw [hwritten]⟩⟩
  · have hn : written.answer ≠ .ok () := by
      intro hok
      obtain ⟨made, hmade⟩ := Host.writeBytes_of_writeFile hw hr hok
      exact ha (Disk.admits_of_writeBytes hmade)
    exact ⟨⟨fun h => (hn h).elim, fun h => (ha h.1).elim⟩, fun h => (hn h).elim,
      fun _ => ⟨hlost hn, fun h => (ha h).elim⟩⟩

/-- A disk with a file in the current directory, and a directory beside it. -/
def lockedDisk : Disk :=
  ⟨.directory [("w", .directory [("lock", .file "".toUTF8), ("src", .directory [])])], ⟨["w"], 0⟩⟩

theorem linkless_lockedDisk : lockedDisk.Linkless := by
  refine Node.linkless_directory (List.forall_mem_singleton.2 (Node.linkless_directory ?_))
  refine List.forall_mem_cons.2 ⟨Node.linkless_file _, List.forall_mem_singleton.2 ?_⟩
  exact Node.linkless_directory fun _ h => nomatch h

/-- One name leads out of a directory that is known into two that are missing. Another leads out of
the current directory and back, and through a file. -/
theorem writeFile_makes_what_is_missing_beside_a_file :
    let host : Host := { configuration := {}, known := ["src"] }
    let written := host.writeFile lockedDisk "src/./../build\\out/a.js" "var a;" true
    let failed := host.writeFile lockedDisk "../w/lock/out/a.js" "var a;" true
    (written.disk.entryAt? ["w", "build", "out"] = some .directory ∧
      written.disk.entryAt? ["w", "build", "out", "a.js"] = some (.file "\uFEFFvar a;".toUTF8) ∧
      written.disk.entryAt? ["w", "lock"] = some (.file "".toUTF8) ∧
      written.host.KnowsRightly written.disk) ∧
    ¬ lockedDisk.IsFree ["w", "lock", "out", "a.js"] ∧ failed.disk = lockedDisk := by
  intro host written failed
  have hk : host.KnowsRightly lockedDisk := by
    intro directory hd
    obtain rfl := List.mem_singleton.1 hd
    decide +kernel
  have hposition : lockedDisk.located (normalize "src/./../build\\out/a.js") =
    ["w", "build", "out", "a.js"] := by decide +kernel
  have hbehind : lockedDisk.located (normalize "../w/lock/out/a.js") =
    ["w", "lock", "out", "a.js"] := by decide +kernel
  have hok : written.answer.isOk = true := by decide +kernel
  have hfailed : failed.answer.isOk = false := by decide +kernel
  obtain ⟨-, hmade, -⟩ := writeFile_makes_what_is_missing host lockedDisk
    "src/./../build\\out/a.js" "var a;" true ["build".toList, "out".toList] "a.js".toList rfl rfl hk
    linkless_lockedDisk rfl rfl (by decide +kernel) (by decide)
  obtain ⟨hiff, -, hleft⟩ := writeFile_makes_what_is_missing host lockedDisk
    "../w/lock/out/a.js" "var a;" true ["..".toList, "w".toList, "lock".toList, "out".toList]
    "a.js".toList rfl rfl hk linkless_lockedDisk rfl rfl (by decide +kernel) (by decide)
  rw [hposition] at hmade
  rw [hbehind] at hiff
  have hanswer : written.answer = .ok () := by
    cases ha : written.answer with
    | ok => rfl
    | error error => simp [ha, Except.isOk, Except.toBool] at hok
  have hrefused : failed.answer ≠ .ok () := by
    intro ha
    simp [ha, Except.isOk, Except.toBool] at hfailed
  have hadmits : Disk.Admits (normalize "../w/lock/out/a.js") :=
    ⟨by decide +kernel, by decide +kernel, by decide +kernel⟩
  obtain ⟨-, hentries, -, hknow⟩ := hmade hanswer
  exact ⟨⟨hentries _, hentries _, hentries _, hknow⟩,
    fun hfree => hrefused (hiff.2 ⟨hadmits, hfree⟩), (hleft hrefused).2 hadmits⟩

end ScriptHost
