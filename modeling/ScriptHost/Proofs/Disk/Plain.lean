import ScriptHost.Proofs.Disk.Growing

/-! Disks without links: a path leads to what its names spell, each of which goes into a directory
or out of it. -/

namespace ScriptHost

/-- Where a name leads to from a place on a disk without links. -/
def Place.enter (place : Place) (name : String) : Place :=
  if name = "" ∨ name = "." then place
  else if name = ".." then place.parent
  else place.child name

/-- The path that a spot is at. -/
def Spot.position : Spot → List String
  | directory place => place.path
  | file path _ => path
  | link path _ => path
  | missing path => path

namespace Place

variable {place : Place} {name : String} {names : List String}

theorem enter_idle (h : name = "" ∨ name = ".") : place.enter name = place := if_pos h

theorem enter_sought (h : Sought name) : place.enter name = place.child name := by
  rw [enter, if_neg (not_or.2 ⟨h.ne_empty, h.ne_dot⟩), if_neg h.ne_up]

theorem removed_enter (h : place.removed = 0) (name : String) : (place.enter name).removed = 0 := by
  unfold enter
  split
  · exact h
  · split
    · obtain ⟨trail, removed⟩ := place
      obtain rfl : removed = 0 := h
      rfl
    · rfl

theorem removed_foldl_enter (h : place.removed = 0) (names : List String) :
    (names.foldl enter place).removed = 0 := by
  induction names generalizing place with
  | nil => exact h
  | cons name names ih => exact ih (removed_enter h name)

theorem path_foldl_enter (h : ∀ name ∈ names, Sought name) :
    (names.foldl enter place).path = place.path ++ names := by
  induction names generalizing place with
  | nil => simp
  | cons name names ih =>
    obtain ⟨hfirst, h⟩ := List.forall_mem_cons.1 h
    rw [List.foldl_cons, ih h, enter_sought hfirst, path_child, List.append_assoc,
      List.singleton_append]

end Place

/-- A node that is no link and has none below it. -/
def Node.Linkless (node : Node) : Prop := ∀ path target, node.entryAt? path ≠ some (.link target)

theorem Node.linkless_file (bytes : ByteArray) : (file bytes).Linkless := by
  intro path target
  cases path with
  | nil => simp [entry]
  | cons name path => simp [entryAt?, find?]

theorem Node.linkless_directory {entries : List (String × Node)}
    (h : ∀ entry ∈ entries, entry.2.Linkless) : (directory entries).Linkless := by
  intro path target
  cases path with
  | nil => simp [entry]
  | cons name path =>
    rw [entryAt?_directory_cons]
    cases hl : entries.lookup name with
    | none => simp
    | some node =>
      obtain ⟨before, after, he, -⟩ := List.lookup_eq_some_iff.1 hl
      exact h (name, node) (by simp [he]) path target

namespace Disk

/-- Where a path leads to on a disk without links. -/
def located (disk : Disk) (path : String) : List String :=
  ((steps path).foldl Place.enter (origin path disk.current)).path

/-- A disk that has no link on it. -/
def Linkless (disk : Disk) : Prop := disk.root.Linkless

variable {disk made : Disk} {purpose : Purpose} {links : Nat} {path name : String}
  {names rest : List String} {base place : Place} {spot : Spot} {bytes : ByteArray} {e : Entry}

/-- No name behind which there is more to look at is too long. -/
theorem Leads.size_le (h : Leads disk purpose links names place spot) :
    ∀ name ∈ names, name.utf8ByteSize ≤ maxName := by
  induction h with
  | arrived => simp
  | idle hn next ih =>
    refine List.forall_mem_cons.2 ⟨?_, ih⟩
    rcases hn with rfl | rfl <;> decide
  | up next ih => exact List.forall_mem_cons.2 ⟨by decide, ih⟩
  | enter hs hc hr he next ih => exact List.forall_mem_cons.2 ⟨hs.size_le, ih⟩
  | file hs hr he => simpa using hs.size_le
  | missing hs hc hr he hl =>
    refine List.forall_mem_cons.2 ⟨hs.size_le, ?_⟩
    rcases hl with rfl | rfl
    · simp
    · simp only [List.mem_singleton, forall_eq]
      decide
  | link hs hp hr he => simpa using hs.size_le
  | through hs hc hr he hl next ih =>
    exact List.forall_mem_cons.2 ⟨hs.size_le, fun name hn => ih name (List.mem_append_right _ hn)⟩

/-- On a disk without links, names lead to where they say. -/
theorem Leads.position_eq (h : Leads disk purpose links names place spot) (hl : disk.Linkless) :
    spot.position = (names.foldl Place.enter place).path := by
  induction h with
  | arrived => rfl
  | idle hn next ih => rw [List.foldl_cons, Place.enter_idle hn, ih]
  | up next ih => exact ih
  | enter hs hc hr he next ih => rw [List.foldl_cons, Place.enter_sought hs, ih]
  | file hs hr he => rw [List.foldl_cons, Place.enter_sought hs]; rfl
  | missing hs hc hr he hm =>
    rw [List.foldl_cons, Place.enter_sought hs]
    rcases hm with rfl | rfl <;> rfl
  | link hs hp hr he => exact (hl _ _ he).elim
  | through hs hc hr he hl' next ih => exact (hl _ _ he).elim

/-- Names that stand for no entry of a directory can always be followed. -/
theorem Leads.before {before : List String}
    (hb : ∀ name ∈ before, name = "" ∨ name = "." ∨ name = "..")
    (h : Leads disk purpose links names (before.foldl Place.enter place) spot) :
    Leads disk purpose links (before ++ names) place spot := by
  induction before generalizing place with
  | nil => exact h
  | cons name before ih =>
    obtain ⟨hfirst, hb⟩ := List.forall_mem_cons.1 hb
    have hrest := ih hb h
    rcases hfirst with hn | hn | rfl
    · rw [Place.enter_idle (.inl hn)] at hrest
      exact .idle (.inl hn) hrest
    · rw [Place.enter_idle (.inr hn)] at hrest
      exact .idle (.inr hn) hrest
    · exact .up hrest

/-- Names lead through directories to their last one, and from there to what the last name stands
for. -/
theorem Leads.along (hs : ∀ name ∈ names, Sought name) (hr : place.removed = 0)
    (hd : disk.entryAt? (place.path ++ names) = some .directory) (hn : rest ≠ [""])
    (h : Leads disk purpose links rest (names.foldl Place.enter place) spot) :
    Leads disk purpose links (names ++ rest) place spot := by
  induction names generalizing place with
  | nil => exact h
  | cons name names ih =>
    obtain ⟨hfirst, hs⟩ := List.forall_mem_cons.1 hs
    have hsplit : place.path ++ name :: names = (place.child name).path ++ names := by simp
    rw [hsplit] at hd
    rw [List.foldl_cons, Place.enter_sought hfirst] at h
    have hc : ¬ (purpose = .create ∧ names ++ rest = [""]) := by
      rintro ⟨-, he⟩
      cases names with
      | nil => exact hn he
      | cons next names => exact (hs next List.mem_cons_self).ne_empty (List.cons.inj he).1
    have he : disk.entryAt? (place.child name).path = some .directory := by
      by_cases hnames : names = []
      · rwa [hnames, List.append_nil] at hd
      · exact Node.entryAt?_on_way hd (List.prefix_append _ _) (by simpa using hnames)
    exact .enter hfirst hc hr he (ih hs rfl hd h)

/-- What the last name of a path leads to is what stands there. -/
theorem Leads.last (hs : Sought name) (hr : place.removed = 0) :
    (disk.entryAt? (place.path ++ [name]) = none →
      Leads disk purpose links [name] place (.missing (place.path ++ [name]))) ∧
    (∀ bytes, disk.entryAt? (place.path ++ [name]) = some (.file bytes) →
      Leads disk purpose links [name] place (.file (place.path ++ [name]) bytes)) ∧
    (disk.entryAt? (place.path ++ [name]) = some .directory →
      Leads disk purpose links [name] place (.directory (place.child name))) := by
  have hc : ¬ (purpose = .create ∧ ([] : List String) = [""]) := by simp
  rw [← Place.path_child]
  exact ⟨fun h => .missing hs hc hr h (.inl rfl), fun bytes h => .file hs hr h,
    fun h => .enter hs hc hr h .arrived⟩

/-- A path that leads from a place along names: what comes before them leads to the place. -/
structure Reaches (disk : Disk) (path : String) (base : Place) (names : List String) : Prop where
  followable : Followable path
  steps : ∃ before, steps path = before ++ names ∧
    (∀ name ∈ before, name = "" ∨ name = "." ∨ name = "..") ∧
    before.foldl Place.enter (origin path disk.current) = base
  sought : ∀ name ∈ names, Sought name
  removed : base.removed = 0

theorem Reaches.located (h : disk.Reaches path base names) :
    disk.located path = base.path ++ names := by
  obtain ⟨before, hs, -, hb⟩ := h.steps
  rw [Disk.located, hs, List.foldl_append, hb, Place.path_foldl_enter h.sought]

theorem Reaches.of_current (h : disk.Reaches path base names) (hc : made.current = disk.current) :
    made.Reaches path base names :=
  ⟨h.followable, hc ▸ h.steps, h.sought, h.removed⟩

theorem Reaches.resolve_last (h : disk.Reaches path base (names ++ [name])) (purpose : Purpose)
    (hd : disk.entryAt? (base.path ++ names) = some .directory) :
    let position := base.path ++ names ++ [name]
    (disk.entryAt? position = none → disk.resolve purpose path = .ok (.missing position)) ∧
    (∀ bytes, disk.entryAt? position = some (.file bytes) →
      disk.resolve purpose path = .ok (.file position bytes)) ∧
    (disk.entryAt? position = some .directory →
      ∃ place, disk.resolve purpose path = .ok (.directory place)) := by
  intro position
  obtain ⟨before, hs, hb, rfl⟩ := h.steps
  have hsought : ∀ name ∈ names, Sought name := fun n hn => h.sought n (List.mem_append_left _ hn)
  have hname : Sought name := h.sought name (by simp)
  have hplace :
      (names.foldl Place.enter (before.foldl Place.enter (origin path disk.current))).path =
        (before.foldl Place.enter (origin path disk.current)).path ++ names :=
      Place.path_foldl_enter hsought
  have hleads {spot : Spot} (hlast : Leads disk purpose maxLinks [name]
      (names.foldl Place.enter (before.foldl Place.enter (origin path disk.current))) spot) :
      disk.resolve purpose path = .ok spot := by
    refine resolve_eq_ok_iff.2 ⟨h.followable, hs ▸ Leads.before hb ?_⟩
    exact Leads.along hsought h.removed hd (by simpa using hname.ne_empty) hlast
  obtain ⟨hmissing, hfile, hdirectory⟩ :=
    Leads.last hname (Place.removed_foldl_enter h.removed names)
  rw [hplace] at hmissing hfile hdirectory
  exact ⟨fun he => hleads (hmissing he), fun bytes he => hleads (hfile bytes he),
    fun he => ⟨_, hleads (hdirectory he)⟩⟩

/-- On a disk without links, a path leads to a directory just when there is one where it says. -/
theorem Reaches.isDirectory_iff (h : disk.Reaches path base names) (hl : disk.Linkless)
    (hs : disk.Stands disk.current) :
    disk.isDirectory path = true ↔ disk.entryAt? (base.path ++ names) = some .directory := by
  rw [Disk.isDirectory_iff]
  constructor
  · rintro ⟨-, target, hleads⟩
    have hstands : disk.entryAt? target.path = some .directory := hleads.isOn (hs.origin path)
    have hposition : target.path = disk.located path := hleads.position_eq hl
    rwa [hposition, h.located] at hstands
  · intro hd
    obtain ⟨before, hsteps, hb, rfl⟩ := h.steps
    have halong : Leads disk .look maxLinks (names ++ []) _ (.directory _) :=
      Leads.along h.sought h.removed hd (by simp) .arrived
    rw [List.append_nil] at halong
    exact ⟨h.followable, _, hsteps ▸ Leads.before hb halong⟩

end Disk

end ScriptHost
