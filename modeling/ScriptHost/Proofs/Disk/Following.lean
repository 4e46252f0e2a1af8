import ScriptHost.Proofs.Disk.Tree

/-! How names lead through a disk, as a relation: each step of a path looks at what stands at one
place. What a path leads to is there, and stays there while directories and links do. -/

namespace ScriptHost

/-- A name that is looked up in a directory, and not too long for one. -/
structure Sought (name : String) : Prop where
  ne_empty : name ≠ ""
  ne_dot : name ≠ "."
  ne_up : name ≠ ".."
  size_le : name.utf8ByteSize ≤ Disk.maxName

namespace Place

@[simp] theorem path_child (place : Place) (name : String) :
    (place.child name).path = place.path ++ [name] := by simp [path, child]

end Place

namespace Disk

/-- Names lead from a place to a spot, through at most so many links. -/
inductive Leads (disk : Disk) (purpose : Purpose) :
    (links : Nat) → List String → Place → Spot → Prop where
  | arrived {links place} : Leads disk purpose links [] place (.directory place)
  | idle {links name rest place spot} (hn : name = "" ∨ name = ".")
      (next : Leads disk purpose links rest place spot) :
      Leads disk purpose links (name :: rest) place spot
  | up {links rest place spot} (next : Leads disk purpose links rest place.parent spot) :
      Leads disk purpose links (".." :: rest) place spot
  | enter {links name rest place spot} (hs : Sought name) (hc : ¬ (purpose = .create ∧ rest = [""]))
      (hr : place.removed = 0) (he : disk.entryAt? (place.child name).path = some .directory)
      (next : Leads disk purpose links rest (place.child name) spot) :
      Leads disk purpose links (name :: rest) place spot
  | file {links name place bytes} (hs : Sought name) (hr : place.removed = 0)
      (he : disk.entryAt? (place.child name).path = some (.file bytes)) :
      Leads disk purpose links [name] place (.file (place.child name).path bytes)
  | missing {links name rest place} (hs : Sought name)
      (hc : ¬ (purpose = .create ∧ rest = [""])) (hr : place.removed = 0)
      (he : disk.entryAt? (place.child name).path = none) (hl : rest = [] ∨ rest = [""]) :
      Leads disk purpose links (name :: rest) place (.missing (place.child name).path)
  | link {links name place target} (hs : Sought name) (hp : purpose = .lookAtLink)
      (hr : place.removed = 0) (he : disk.entryAt? (place.child name).path = some (.link target)) :
      Leads disk purpose links [name] place (.link (place.child name).path target)
  | through {links name rest place target spot} (hs : Sought name)
      (hc : ¬ (purpose = .create ∧ rest = [""])) (hr : place.removed = 0)
      (he : disk.entryAt? (place.child name).path = some (.link target))
      (hl : ¬ (rest = [] ∧ purpose = .lookAtLink))
      (next : Leads disk purpose links (steps target ++ rest) (origin target place) spot) :
      Leads disk purpose (links + 1) (name :: rest) place spot

variable {disk other : Disk} {purpose : Purpose} {links : Nat} {name path target : String}
  {rest names : List String} {place : Place} {spot : Spot} {bytes : ByteArray} {e : Entry}

theorem entriesAt_of_removed (h : place.removed = 0) :
    disk.entriesAt place = ((disk.root.find? place.path).map Node.entries).getD [] := if_pos h

theorem entryAt?_child (hr : place.removed = 0) :
    disk.entryAt? (place.child name).path =
      ((disk.entriesAt place).lookup name).map Node.entry := by
  rw [entriesAt_of_removed hr, entryAt?, Node.entryAt?, Place.path_child, Node.find?_append]
  cases disk.root.find? place.path with
  | none => rfl
  | some node =>
    cases node with
    | directory entries =>
      simp only [Option.bind_some, Option.map_some, Option.getD_some, Node.entries, Node.find?]
      cases entries.lookup name <;> simp
    | file bytes => rfl
    | link target => rfl

theorem entriesAt_child {below : List (String × Node)} (hr : place.removed = 0)
    (h : (disk.entriesAt place).lookup name = some (.directory below)) :
    disk.entriesAt (place.child name) = below := by
  rw [entriesAt_of_removed hr] at h
  rw [entriesAt_of_removed rfl, Place.path_child, Node.find?_append]
  cases hf : disk.root.find? place.path with
  | none => simp [hf] at h
  | some node =>
    cases node with
    | directory entries =>
      have hl : entries.lookup name = some (.directory below) := by simpa [hf, Node.entries] using h
      simp [Node.find?, hl, Node.entries]
    | file bytes => simp [hf, Node.entries] at h
    | link target => simp [hf, Node.entries] at h

/-- What follows the first link of a path. -/
def afterLink (disk : Disk) (purpose : Purpose) :
    (links : Nat) → List String → Place → Except DiskFailure Spot
  | 0 => fun _ _ => .error .tooManyLinks
  | links + 1 => disk.walk purpose links

theorem walk_eq_follow (links : Nat) (names : List String) (place : Place) :
    disk.walk purpose links names place =
      disk.follow purpose (disk.afterLink purpose links) names place (disk.entriesAt place) := by
  cases links <;> rfl

/-- What a name and those behind it lead to, given what stands at the place of the first. -/
def beyond (disk : Disk) (purpose : Purpose) (links : Nat) (name : String) (rest : List String)
    (place : Place) : Option Entry → Except DiskFailure Spot
  | none =>
    if rest = [] ∨ rest = [""] then .ok (.missing (place.child name).path) else .error .notFound
  | some .directory => disk.walk purpose links rest (place.child name)
  | some (.file bytes) =>
    if rest = [] then .ok (.file (place.child name).path bytes) else .error .notDirectory
  | some (.link target) =>
    if rest = [] ∧ purpose = .lookAtLink then .ok (.link (place.child name).path target)
    else disk.afterLink purpose links (steps target ++ rest) (origin target place)

theorem walk_nil : disk.walk purpose links [] place = .ok (.directory place) := by
  rw [walk_eq_follow, follow]

theorem walk_idle (hn : name = "" ∨ name = ".") :
    disk.walk purpose links (name :: rest) place = disk.walk purpose links rest place := by
  rw [walk_eq_follow, follow, if_pos hn, ← walk_eq_follow]

theorem walk_up :
    disk.walk purpose links (".." :: rest) place = disk.walk purpose links rest place.parent := by
  rw [walk_eq_follow, follow, if_neg (by decide), if_pos rfl, ← walk_eq_follow]

theorem walk_sought (hs : Sought name) (hc : ¬ (purpose = .create ∧ rest = [""]))
    (hr : place.removed = 0) :
    disk.walk purpose links (name :: rest) place =
      disk.beyond purpose links name rest place (disk.entryAt? (place.child name).path) := by
  rw [walk_eq_follow, follow, if_neg (not_or.2 ⟨hs.ne_empty, hs.ne_dot⟩), if_neg hs.ne_up,
    if_neg hc, if_neg (not_not.2 hr), if_neg (Nat.not_lt.2 hs.size_le), entryAt?_child hr]
  cases hl : (disk.entriesAt place).lookup name with
  | none => rfl
  | some node =>
    cases node with
    | directory below =>
      simp only [Option.map_some, Node.entry, beyond]
      rw [walk_eq_follow, entriesAt_child hr hl]
    | file bytes => rfl
    | link target => rfl

/-- A name that is looked up on the way leads nowhere in a removed directory, or when it is too
long. -/
theorem sought_of_walk (h : disk.walk purpose links (name :: rest) place = .ok spot)
    (hi : ¬ (name = "" ∨ name = ".")) (hu : name ≠ "..") :
    Sought name ∧ ¬ (purpose = .create ∧ rest = [""]) ∧ place.removed = 0 := by
  rw [walk_eq_follow, follow, if_neg hi, if_neg hu] at h
  split at h
  · cases h
  split at h
  · cases h
  split at h
  · cases h
  exact ⟨⟨fun he => hi (.inl he), fun he => hi (.inr he), hu, Nat.le_of_not_lt ‹_›⟩, ‹_›,
    not_not.1 ‹_›⟩

theorem leads_of_walk
    (hl : ∀ names place, disk.afterLink purpose links names place = .ok spot →
      ∃ fewer, links = fewer + 1 ∧ Leads disk purpose fewer names place spot)
    (h : disk.walk purpose links names place = .ok spot) :
    Leads disk purpose links names place spot := by
  induction names generalizing place with
  | nil =>
    obtain rfl : Spot.directory place = spot := by simpa [walk_nil] using h
    exact .arrived
  | cons name rest ih =>
    by_cases hi : name = "" ∨ name = "."
    · rw [walk_idle hi] at h
      exact .idle hi (ih h)
    by_cases hu : name = ".."
    · subst name
      rw [walk_up] at h
      exact .up (ih h)
    obtain ⟨hs, hc, hr⟩ := sought_of_walk h hi hu
    rw [walk_sought hs hc hr] at h
    cases he : disk.entryAt? (place.child name).path with
    | none =>
      rw [he, beyond] at h
      split at h
      · cases h
        exact .missing hs hc hr he ‹_›
      · cases h
    | some e =>
      rw [he] at h
      cases e with
      | directory => exact .enter hs hc hr he (ih h)
      | file bytes =>
        rw [beyond] at h
        split at h
        · subst rest
          cases h
          exact .file hs hr he
        · cases h
      | link target =>
        rw [beyond] at h
        split at h
        · rename_i hlast
          obtain ⟨rfl, hp⟩ := hlast
          cases h
          exact .link hs hp hr he
        · obtain ⟨fewer, rfl, hnext⟩ := hl _ _ h
          exact .through hs hc hr he ‹_› hnext

theorem Leads.walk_eq (h : Leads disk purpose links names place spot) :
    disk.walk purpose links names place = .ok spot := by
  induction h with
  | arrived => exact walk_nil
  | idle hn next ih => rw [walk_idle hn, ih]
  | up next ih => rw [walk_up, ih]
  | enter hs hc hr he next ih =>
    rw [walk_sought hs hc hr, he]
    exact ih
  | file hs hr he =>
    rw [walk_sought hs (by simp) hr, he]
    rfl
  | missing hs hc hr he hl =>
    rw [walk_sought hs hc hr, he]
    exact if_pos hl
  | link hs hp hr he =>
    rw [walk_sought hs (by simp) hr, he]
    exact if_pos ⟨rfl, hp⟩
  | through hs hc hr he hl next ih =>
    rw [walk_sought hs hc hr, he]
    exact (if_neg hl).trans ih

/-- The walk through a disk arrives where the names lead, and nowhere else. -/
theorem walk_eq_ok_iff : disk.walk purpose links names place = .ok spot ↔
    Leads disk purpose links names place spot := by
  refine ⟨fun h => ?_, Leads.walk_eq⟩
  induction links generalizing names place with
  | zero => exact leads_of_walk (fun _ _ h => by simp [afterLink] at h) h
  | succ links ih => exact leads_of_walk (fun _ _ h => ⟨links, rfl, ih h⟩) h

end Disk

end ScriptHost
