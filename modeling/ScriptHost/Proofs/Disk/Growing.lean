import ScriptHost.Proofs.Disk.Following

/-! Disks that grow: a new directory and a written file change what stands at one path, and no path
that leads to a directory is led astray by that. -/

namespace ScriptHost

namespace Disk

variable {disk other made : Disk} {purpose : Purpose} {links : Nat} {name path : String}
  {rest names above : List String} {place target : Place} {spot : Spot} {bytes : ByteArray}
  {e : Entry}

/-- A path that can be followed at all. -/
structure Followable (path : String) : Prop where
  whole : '\x00' ∉ path.toList
  ne_empty : path ≠ ""
  size_le : path.utf8ByteSize ≤ maxPath

theorem resolve_eq_ok_iff : disk.resolve purpose path = .ok spot ↔ Followable path ∧
    Leads disk purpose maxLinks (steps path) (origin path disk.current) spot := by
  rw [← walk_eq_ok_iff]
  unfold resolve
  constructor
  · intro h
    split at h
    · cases h
    split at h
    · cases h
    split at h
    · cases h
    exact ⟨⟨‹_›, ‹_›, Nat.le_of_not_lt ‹_›⟩, h⟩
  · rintro ⟨hf, h⟩
    rwa [if_neg hf.whole, if_neg hf.ne_empty, if_neg (Nat.not_lt.2 hf.size_le)]

/-- A path leads to a directory. -/
theorem isDirectory_iff : disk.isDirectory path = true ↔ Followable path ∧
    ∃ target, Leads disk .look maxLinks (steps path) (origin path disk.current)
      (.directory target) := by
  have hres : disk.isDirectory path = true ↔
      ∃ target, disk.resolve .look path = .ok (.directory target) := by
    unfold isDirectory
    cases disk.resolve .look path with
    | error failure => simp
    | ok spot => cases spot <;> simp
  simp only [hres, resolve_eq_ok_iff, exists_and_left]

/-- A place stands in a tree: it is a directory of it, or was one below such a directory. -/
def Stands (disk : Disk) (place : Place) : Prop := disk.entryAt? place.path = some .directory

theorem entryAt?_root (h : disk.entryAt? names = some e) (hn : names ≠ []) :
    disk.entryAt? [] = some .directory :=
  Node.entryAt?_on_way h List.nil_prefix (Ne.symm hn)

theorem Stands.root (h : disk.Stands place) : disk.Stands .root := by
  by_cases hp : place.path = []
  · rwa [Stands, hp] at h
  · exact entryAt?_root h hp

theorem Stands.origin (h : disk.Stands place) (path : String) :
    disk.Stands (origin path place) := by
  unfold Disk.origin
  split
  · exact h.root
  · exact h

theorem Stands.parent (h : disk.Stands place) : disk.Stands place.parent := by
  obtain ⟨trail, removed⟩ := place
  cases removed with
  | succ removed => exact h
  | zero =>
    cases trail with
    | nil => exact h
    | cons name trail =>
      have hp : Place.path ⟨name :: trail, 0⟩ = Place.path ⟨trail, 0⟩ ++ [name] := by
        simp [Place.path]
      rw [Stands, hp] at h
      exact Node.entryAt?_of_append h

end Disk

/-- A spot is on a disk as it says. -/
def Spot.IsOn (disk : Disk) : Spot → Prop
  | directory place => disk.Stands place
  | file path bytes =>
    disk.entryAt? path = some (.file bytes) ∧ ∃ above name, path = above ++ [name]
  | link path target => disk.entryAt? path = some (.link target)
  | missing path => disk.entryAt? path = none ∧
      ∃ above name, path = above ++ [name] ∧ disk.entryAt? above = some .directory

namespace Disk

variable {disk other made : Disk} {purpose : Purpose} {links : Nat} {name path : String}
  {rest names above : List String} {place target : Place} {spot : Spot} {bytes : ByteArray}
  {e : Entry}

/-- What names lead to from a directory is on the disk. -/
theorem Leads.isOn (h : Leads disk purpose links names place spot) (hp : disk.Stands place) :
    spot.IsOn disk := by
  induction h with
  | arrived => exact hp
  | idle hn next ih => exact ih hp
  | up next ih => exact ih hp.parent
  | enter hs hc hr he next ih => exact ih he
  | file hs hr he => exact ⟨he, _, _, Place.path_child _ _⟩
  | missing hs hc hr he hl => exact ⟨he, _, _, Place.path_child _ _, hp⟩
  | link hs hp' hr he => exact he
  | through hs hc hr he hl next ih => exact ih (hp.origin _)

/-- A disk that has all directories and links of another, in the same place. -/
structure Grows (disk other : Disk) : Prop where
  current : other.current = disk.current
  kept : ∀ names e, (∀ bytes, e ≠ .file bytes) → disk.entryAt? names = some e →
    other.entryAt? names = some e

theorem Grows.refl (disk : Disk) : Grows disk disk := ⟨rfl, fun _ _ _ h => h⟩

theorem Grows.trans {later : Disk} (h : Grows disk other) (hl : Grows other later) :
    Grows disk later :=
  ⟨hl.current.trans h.current, fun names e he hn => hl.kept names e he (h.kept names e he hn)⟩

theorem Grows.directory (h : Grows disk other) (hn : disk.entryAt? names = some .directory) :
    other.entryAt? names = some .directory := h.kept names _ (by simp) hn

theorem Grows.stands (h : Grows disk other) (hp : disk.Stands place) : other.Stands place :=
  h.directory hp

/-- Names that have led to a directory, or to where there is one by now, lead to one. -/
theorem Leads.grow (h : Leads disk purpose links names place spot) (hg : Grows disk other)
    (hspot : (∃ target, spot = .directory target) ∨
      ∃ path, spot = .missing path ∧ other.entryAt? path = some .directory) :
    ∃ target, Leads other .look links names place (.directory target) := by
  induction h with
  | @arrived links place => exact ⟨place, .arrived⟩
  | idle hn next ih => exact (ih hspot).imp fun _ h => .idle hn h
  | up next ih => exact (ih hspot).imp fun _ h => .up h
  | enter hs hc hr he next ih =>
    exact (ih hspot).imp fun _ h => .enter hs (by simp) hr (hg.directory he) h
  | file hs hr he => simp at hspot
  | @missing links name rest place hs hc hr he hl =>
    have he : other.entryAt? (place.child name).path = some .directory := by simpa using hspot
    rcases hl with rfl | rfl
    · exact ⟨_, .enter hs (by simp) hr he .arrived⟩
    · exact ⟨_, .enter hs (by simp) hr he (.idle (.inl rfl) .arrived)⟩
  | link hs hp hr he => simp at hspot
  | through hs hc hr he hl next ih =>
    exact (ih hspot).imp fun _ h => .through hs (by simp) hr (hg.kept _ _ (by simp) he) (by simp) h

theorem Grows.isDirectory (hg : Grows disk other) (h : disk.isDirectory path = true) :
    other.isDirectory path = true := by
  obtain ⟨hf, target, h⟩ := isDirectory_iff.1 h
  exact isDirectory_iff.2 ⟨hf, hg.current ▸ h.grow hg (.inl ⟨target, rfl⟩)⟩

/-- A disk that differs from another by what stands at one path, where there was nothing or a
file. -/
structure Gains (disk made : Disk) (names : List String) (e : Entry) : Prop where
  current : made.current = disk.current
  vacant : disk.entryAt? names = none ∨ ∃ bytes, disk.entryAt? names = some (.file bytes)
  entries : ∀ path, made.entryAt? path = if path = names then some e else disk.entryAt? path

theorem Gains.grows (h : Gains disk made names e) : Grows disk made where
  current := h.current
  kept path found hf hp := by
    have hne : path ≠ names := by
      rintro rfl
      rcases h.vacant with hn | ⟨bytes, hn⟩
      · simp [hn] at hp
      · exact hf bytes (by simpa [hn] using hp.symm)
    rw [h.entries, if_neg hne, hp]

theorem gains_put (new : Node) (hnew : ∀ name more, new.entryAt? (name :: more) = none)
    (habove : disk.entryAt? above = some .directory)
    (ho : disk.entryAt? (above ++ [name]) = none ∨
      ∃ bytes, disk.entryAt? (above ++ [name]) = some (.file bytes)) :
    Gains disk (disk.put (above ++ [name]) new) (above ++ [name]) new.entry where
  current := rfl
  vacant := ho
  entries path := by
    refine Node.entryAt?_put hnew habove ?_ path
    intro hd
    rcases ho with hn | ⟨bytes, hn⟩ <;> simp [entryAt?, hd] at hn

/-- A new directory stands where nothing stood, and its path leads there. -/
theorem exists_gains_of_createDirectory (h : disk.createDirectory path = .ok made)
    (hp : disk.Stands disk.current) :
    (∃ names, disk.resolve .lookAtLink path = .ok (.missing names) ∧
      Gains disk made names .directory) ∧ made.isDirectory path = true := by
  unfold createDirectory at h
  split at h
  · rename_i names hres
    obtain ⟨hf, hl⟩ := resolve_eq_ok_iff.1 hres
    obtain ⟨hnone, above, name, rfl, habove⟩ := hl.isOn (hp.origin _)
    have hg : Gains disk made (above ++ [name]) .directory := by
      obtain rfl := Except.ok.inj h
      exact gains_put (.directory []) (fun _ _ => rfl) habove (.inl hnone)
    refine ⟨⟨_, hres, hg⟩, isDirectory_iff.2 ⟨hf, hg.current ▸ hl.grow hg.grows ?_⟩⟩
    exact .inr ⟨_, rfl, by rw [hg.entries, if_pos rfl]⟩
  · cases h
  · cases h

/-- A written file stands where nothing stood, or in place of another one. -/
theorem exists_gains_of_writeBytes (h : disk.writeBytes path bytes = .ok made)
    (hp : disk.Stands disk.current) : ∃ names, (disk.resolve .create path = .ok (.missing names) ∨
      ∃ old, disk.resolve .create path = .ok (.file names old)) ∧
      Gains disk made names (.file bytes) := by
  unfold writeBytes at h
  split at h
  · rename_i names hres
    obtain ⟨-, hl⟩ := resolve_eq_ok_iff.1 hres
    obtain ⟨hnone, above, name, rfl, habove⟩ := hl.isOn (hp.origin _)
    obtain rfl := Except.ok.inj h
    exact ⟨_, .inl hres, gains_put (.file bytes) (fun _ _ => rfl) habove (.inl hnone)⟩
  · rename_i names old hres
    obtain ⟨-, hl⟩ := resolve_eq_ok_iff.1 hres
    obtain ⟨hold, above, name, rfl⟩ := hl.isOn (hp.origin _)
    obtain rfl := Except.ok.inj h
    exact ⟨_, .inr ⟨old, hres⟩, gains_put (.file bytes) (fun _ _ => rfl)
      (Node.entryAt?_of_append hold) (.inr ⟨old, hold⟩)⟩
  · cases h
  · cases h

end Disk

end ScriptHost
