import ScriptHost.Proofs.Disk.Spelling
import ScriptHost.Proofs.Host.Server

/-! The directories that a host makes before it writes. All that it takes to exist do exist, so it
makes the same ones as if it knew of none. -/

namespace ScriptHost

namespace Disk

open FileName

variable {disk made : Disk} {name directory : String} {directories : List String}

/-- Makes a directory in one that exists, unless it is there already. -/
def makeDirectory (disk : Disk) (directory : String) : WriteAnswer × Disk :=
  match disk.createDirectory directory with
  | .ok disk => (.ok (), disk)
  | .error failure =>
    if failure = .exists ∧ disk.isDirectory directory then (.ok (), disk)
    else (.error (.createDirectory directory failure), disk)

/-- Makes directories that do not exist yet, given innermost first. Each of them is looked at. -/
def makeDirectories (disk : Disk) : List String → WriteAnswer × Disk
  | [] => (.ok (), disk)
  | directory :: outer =>
    if disk.isDirectory directory then (.ok (), disk)
    else
      match disk.makeDirectories outer with
      | (.error error, disk) => (.error error, disk)
      | (.ok _, disk) => disk.makeDirectory directory

theorem makeDirectories_of_isDirectory (h : disk.isDirectory directory = true)
    (outer : List String) : disk.makeDirectories (directory :: outer) = (.ok (), disk) := by
  rw [makeDirectories, if_pos h]

theorem makeDirectories_of_error {error : HostError} {outer : List String}
    (h : disk.isDirectory directory = false)
    (ho : disk.makeDirectories outer = (.error error, made)) :
    disk.makeDirectories (directory :: outer) = (.error error, made) := by
  rw [makeDirectories, if_neg (by simp [h]), ho]

theorem makeDirectories_of_ok {outer : List String} (h : disk.isDirectory directory = false)
    (ho : disk.makeDirectories outer = (.ok (), made)) :
    disk.makeDirectories (directory :: outer) = made.makeDirectory directory := by
  rw [makeDirectories, if_neg (by simp [h]), ho]

/-- A directory is made, or is there already, or the disk is left alone. -/
theorem makeDirectory_cases (hp : disk.Stands disk.current) (directory : String) :
    let made := disk.makeDirectory directory
    Grows disk made.2 ∧
      (made.1 = .ok () ∧ made.2.isDirectory directory = true ∨
        (∃ error, made.1 = .error error) ∧ made.2 = disk) := by
  intro made
  cases hc : disk.createDirectory directory with
  | ok later =>
    have hmade : made = (.ok (), later) := by simp only [made, makeDirectory, hc]
    obtain ⟨⟨names, -, hg⟩, hd⟩ := exists_gains_of_createDirectory hc hp
    rw [hmade]
    exact ⟨hg.grows, .inl ⟨rfl, hd⟩⟩
  | error failure =>
    by_cases he : failure = .exists ∧ disk.isDirectory directory = true
    · have hmade : made = (.ok (), disk) := by simp only [made, makeDirectory, hc, if_pos he]
      rw [hmade]
      exact ⟨.refl disk, .inl ⟨rfl, he.2⟩⟩
    · have hmade : made = (.error (.createDirectory directory failure), disk) := by
        simp only [made, makeDirectory, hc, if_neg he]
      rw [hmade]
      exact ⟨.refl disk, .inr ⟨⟨_, rfl⟩, rfl⟩⟩

/-- Writes a text to the file of a name, and makes the directories that it lies in before that. -/
def writeText (disk : Disk) (name text : String) : WriteAnswer × Disk :=
  let normal := normalize name
  match disk.makeDirectories (enclosing normal) with
  | (.error error, disk) => (.error error, disk)
  | (.ok _, disk) =>
    match disk.writeBytes normal text.toUTF8 with
    | .ok disk => (.ok (), disk)
    | .error failure => (.error (.write name failure), disk)

/-- Nothing that has been on a disk is lost when directories are made. -/
theorem grows_makeDirectories (hp : disk.Stands disk.current) (directories : List String) :
    Grows disk (disk.makeDirectories directories).2 := by
  induction directories with
  | nil => exact .refl disk
  | cons directory outer ih =>
    cases hd : disk.isDirectory directory with
    | true => rw [makeDirectories_of_isDirectory hd]; exact .refl disk
    | false =>
      cases ho : disk.makeDirectories outer with
      | mk answer made =>
        rw [ho] at ih
        cases answer with
        | error error => rw [makeDirectories_of_error hd ho]; exact ih
        | ok =>
          rw [makeDirectories_of_ok hd ho]
          have hs : made.Stands made.current := by
            rw [ih.current]
            exact ih.stands hp
          exact ih.trans (makeDirectory_cases hs directory).1

/-- A path that is not idle, and that leads to a directory just when it does so without its idle
segments: either they make it no longer than a path may be, or it has none. -/
structure Recognizable (directory : String) : Prop where
  busy : busySegments directory.toList ≠ []
  short : directory.utf8ByteSize ≤ maxPath ∨ condensed directory = directory

theorem Recognizable.isDirectory_iff (h : Recognizable directory) :
    disk.isDirectory (condensed directory) = true ↔ disk.isDirectory directory = true := by
  rcases h.short with hs | he
  · exact isDirectory_condensed_iff h.busy hs
  · rw [he]

/-- The directories that the file of a name lies in are recognized without their idle segments. -/
def Nameable (name : String) : Prop :=
  ∀ directory ∈ enclosing (normalize name), Recognizable directory

theorem nameable_of_size_le (h : (normalize name).utf8ByteSize ≤ maxPath) : Nameable name := by
  intro directory hd
  obtain ⟨hp, hb⟩ := prefix_of_mem_enclosing hd
  refine ⟨hb, .inl (Nat.le_trans ?_ h)⟩
  rw [← Text.byteLength_toList, ← Text.byteLength_toList]
  exact byteLength_le_of_sublist hp.sublist

end Disk

namespace Host

open FileName

variable {host : Host} {disk other : Disk} {name directory : String}
  {directories : List String}

/-- All directories that a host takes to exist do so. -/
def KnowsRightly (host : Host) (disk : Disk) : Prop :=
  ∀ directory ∈ host.known, disk.isDirectory directory = true

theorem KnowsRightly.grow (h : host.KnowsRightly disk) (hg : disk.Grows other) :
    host.KnowsRightly other := fun directory hd => hg.isDirectory (h directory hd)

theorem KnowsRightly.know (h : host.KnowsRightly disk) (hr : Disk.Recognizable directory)
    (hd : disk.isDirectory directory = true) : (host.know directory).KnowsRightly disk := by
  intro other ho
  rcases List.mem_append.1 ho with ho | ho
  · exact h other ho
  · obtain rfl := List.mem_singleton.1 ho
    exact hr.isDirectory_iff.2 hd

theorem KnowsRightly.isDirectory (h : host.KnowsRightly disk) (hr : Disk.Recognizable directory)
    (hk : host.knows directory) : disk.isDirectory directory = true :=
  hr.isDirectory_iff.1 (h _ hk)

theorem ensureDirectories_of_error {error : HostError} {outer : List String} {after : Host}
    (hk : ¬ host.knows directory) (hd : disk.isDirectory directory = false)
    (ho : host.ensureDirectories disk outer = ⟨.error error, after, other⟩) :
    host.ensureDirectories disk (directory :: outer) = ⟨.error error, after, other⟩ := by
  rw [ensureDirectories, if_neg hk, if_neg (by simp [hd]), ho]

theorem ensureDirectories_of_ok {outer : List String} {after : Host}
    (hk : ¬ host.knows directory) (hd : disk.isDirectory directory = false)
    (ho : host.ensureDirectories disk outer = ⟨.ok (), after, other⟩) :
    let made := other.makeDirectory directory
    host.ensureDirectories disk (directory :: outer) =
      ⟨made.1, if made.1.isOk then after.know directory else after, made.2⟩ := by
  rw [ensureDirectories, if_neg hk, if_neg (by simp [hd]), ho]
  cases hc : other.createDirectory directory with
  | ok later => simp [Disk.makeDirectory, hc, Except.isOk, Except.toBool]
  | error failure =>
    by_cases he : failure = .exists ∧ other.isDirectory directory = true
    · simp [Disk.makeDirectory, hc, he, Except.isOk, Except.toBool]
    · simp [Disk.makeDirectory, hc, he, Except.isOk, Except.toBool]

/-- A host that knows its directories rightly makes those that it would make if it had to look at
each, and knows them rightly after that. -/
theorem ensureDirectories_eq_makeDirectories (h : host.KnowsRightly disk)
    (hp : disk.Stands disk.current) (hr : ∀ directory ∈ directories, Disk.Recognizable directory) :
    let made := host.ensureDirectories disk directories
    (made.answer, made.disk) = disk.makeDirectories directories ∧
      made.host.KnowsRightly made.disk := by
  induction directories with
  | nil => exact ⟨rfl, h⟩
  | cons directory outer ih =>
    obtain ⟨hfirst, hr⟩ := List.forall_mem_cons.1 hr
    by_cases hk : host.knows directory
    · rw [ensureDirectories, if_pos hk,
        Disk.makeDirectories_of_isDirectory (h.isDirectory hfirst hk)]
      exact ⟨rfl, h⟩
    cases hd : disk.isDirectory directory with
    | true =>
      rw [ensureDirectories, if_neg hk, if_pos hd, Disk.makeDirectories_of_isDirectory hd]
      exact ⟨rfl, h.know hfirst hd⟩
    | false =>
      obtain ⟨heq, hknow⟩ := ih hr
      have hgrows := Disk.grows_makeDirectories hp outer
      cases ho : host.ensureDirectories disk outer with
      | mk answer after other =>
        rw [ho] at heq hknow
        rw [← heq] at hgrows
        cases answer with
        | error error =>
          rw [ensureDirectories_of_error hk hd ho, Disk.makeDirectories_of_error hd heq.symm]
          exact ⟨rfl, hknow⟩
        | ok =>
          rw [ensureDirectories_of_ok hk hd ho, Disk.makeDirectories_of_ok hd heq.symm]
          refine ⟨rfl, ?_⟩
          have hs : other.Stands other.current := by
            rw [hgrows.current]
            exact hgrows.stands hp
          obtain ⟨hg, hc⟩ := Disk.makeDirectory_cases hs directory
          rcases hc with ⟨hok, hdir⟩ | ⟨⟨error, herror⟩, -⟩
          · rw [hok]
            exact (hknow.grow hg).know hfirst hdir
          · rw [herror]
            exact hknow.grow hg

/-- Whether what is written goes to disk. -/
def writesToDisk (host : Host) : Bool := host.write == .file && host.redirect.isNone

/-- Writes an output without a look at what is known of directories. -/
def writeAnew (host : Host) (disk : Disk) (name data : String) (mark : Bool) :
    Served WriteAnswer :=
  if host.writesToDisk then
    let text := Text.withByteOrderMark mark data
    let written := disk.writeText name text
    ⟨written.1, if written.1.isOk then host.record name text else host, written.2⟩
  else host.writeFile disk name data mark

/-- A host that knows its directories rightly writes a file as if it had to look at each directory,
and knows them rightly after that. -/
theorem writeDisk_eq_writeText (h : host.KnowsRightly disk) (hp : disk.Stands disk.current)
    (hn : Disk.Nameable name) (data : String) (mark : Bool) :
    let written := host.writeDisk disk name data mark
    (written.answer, written.disk) = disk.writeText name (Text.withByteOrderMark mark data) ∧
      written.host.KnowsRightly written.disk ∧ disk.Grows written.disk := by
  obtain ⟨heq, hknow⟩ := ensureDirectories_eq_makeDirectories h hp hn
  have hgrows := Disk.grows_makeDirectories hp (enclosing (normalize name))
  cases he : host.ensureDirectories disk (enclosing (normalize name)) with
  | mk answer after made =>
    rw [he] at heq hknow
    rw [← heq] at hgrows
    cases answer with
    | error error =>
      simp only [writeDisk, he, Disk.writeText, ← heq]
      exact ⟨trivial, hknow, hgrows⟩
    | ok =>
      have hs : made.Stands made.current := by
        rw [hgrows.current]
        exact hgrows.stands hp
      cases hw : made.writeBytes (normalize name) (Text.withByteOrderMark mark data).toUTF8 with
      | error failure =>
        simp only [writeDisk, he, Disk.writeText, ← heq, hw]
        exact ⟨trivial, hknow, hgrows⟩
      | ok later =>
        obtain ⟨names, -, hg⟩ := Disk.exists_gains_of_writeBytes hw hs
        simp only [writeDisk, he, Disk.writeText, ← heq, hw]
        exact ⟨trivial, hknow.grow hg.grows, hgrows.trans hg.grows⟩

theorem writeFile_of_writesToDisk (hw : host.writesToDisk = true) (data : String) (mark : Bool) :
    let written := host.writeDisk disk name data mark
    host.writeFile disk name data mark =
      ⟨written.answer, if written.answer.isOk then
        written.host.record name (Text.withByteOrderMark mark data) else written.host,
        written.disk⟩ := by
  intro written
  obtain ⟨hm, hr⟩ : host.write = .file ∧ host.redirect = none := by
    simpa [writesToDisk] using hw
  have hwritten : host.writeDisk disk name data mark = written := rfl
  obtain ⟨answer, after, made⟩ := written
  unfold writeFile
  simp only [hm, hr, hwritten]
  cases answer with
  | ok => rfl
  | error error => rfl

/-- A write that does not go to disk has nothing to do with directories. -/
theorem writeFile_of_not_writesToDisk (hw : host.writesToDisk = false) (data : String)
    (mark : Bool) :
    let written := host.writeFile disk name data mark
    written.disk = disk ∧ written.host.known = host.known ∧
      host.forgetDirectories.writeFile disk name data mark =
        ⟨written.answer, written.host.forgetDirectories, written.disk⟩ := by
  obtain ⟨_, _, _, write, _, _, _, redirect⟩ := host
  cases write with
  | string => cases redirect <;> exact ⟨rfl, rfl, rfl⟩
  | file =>
    cases redirect with
    | none => simp [writesToDisk] at hw
    | some redirect => exact ⟨rfl, rfl, rfl⟩

/-- A write on a host that knows its directories rightly has the result that it has on a host that
knows none, and the host knows its directories rightly after that. -/
theorem writeFile_eq_writeAnew (h : host.KnowsRightly disk) (hp : disk.Stands disk.current)
    (hn : Disk.Nameable name) (data : String) (mark : Bool) :
    let written := host.writeFile disk name data mark
    host.forgetDirectories.writeAnew disk name data mark =
        ⟨written.answer, written.host.forgetDirectories, written.disk⟩ ∧
      written.host.KnowsRightly written.disk ∧ written.disk.Stands written.disk.current := by
  have hforget : host.forgetDirectories.writesToDisk = host.writesToDisk := rfl
  cases hw : host.writesToDisk with
  | false =>
    obtain ⟨hdisk, hknown, heq⟩ := writeFile_of_not_writesToDisk hw data mark
    rw [writeAnew, hforget, if_neg (by simp [hw]), heq]
    refine ⟨rfl, ?_, hdisk.symm ▸ hp⟩
    unfold KnowsRightly
    rw [hdisk, hknown]
    exact h
  | true =>
    obtain ⟨heq, hknow, hgrows⟩ := writeDisk_eq_writeText h hp hn data mark
    obtain ⟨known, hafter⟩ := exists_writeDisk_eq host disk name data mark
    rw [writeAnew, hforget, if_pos hw, writeFile_of_writesToDisk hw]
    cases hd : host.writeDisk disk name data mark with
    | mk answer after made =>
      rw [hd] at heq hknow hgrows hafter
      obtain rfl : after = { host with known := known } := hafter
      refine ⟨?_, ?_, ?_⟩
      · simp only [← heq]
        cases answer <;> rfl
      · cases answer <;> exact hknow
      · rw [hgrows.current]
        exact hgrows.stands hp

end Host

end ScriptHost
