import Mathlib.Data.List.Basic
import ScriptHost.Disk.Change

/-! A tree by what stands at each path, and what a node put into it changes of that. -/

namespace ScriptHost

namespace Node

/-- What a node is, without what is below it. -/
def entry : Node → Entry
  | .file bytes => .file bytes
  | .link target => .link target
  | .directory _ => .directory

/-- What stands at a path below a node. -/
def entryAt? (node : Node) (path : List String) : Option Entry := (node.find? path).map entry

variable {node new : Node} {path more above : List String} {name : String} {e : Entry}

@[simp] theorem find?_nil (node : Node) : node.find? [] = some node := by cases node <;> rfl

theorem find?_append (path more : List String) (node : Node) :
    node.find? (path ++ more) = (node.find? path).bind (find? more) := by
  induction path generalizing node with
  | nil => simp
  | cons name path ih =>
    cases node with
    | directory entries =>
      simp only [List.cons_append, find?]
      cases entries.lookup name with
      | none => rfl
      | some child => exact ih child
    | file bytes => rfl
    | link target => rfl

@[simp] theorem entryAt?_nil (node : Node) : node.entryAt? [] = some node.entry := by
  simp [entryAt?]

theorem entryAt?_directory_cons (entries : List (String × Node)) (name : String)
    (path : List String) :
    (directory entries).entryAt? (name :: path) = (entries.lookup name).bind (·.entryAt? path) := by
  unfold entryAt?
  rw [find?]
  cases entries.lookup name <;> rfl

theorem exists_directory_of_entry (h : node.entry = .directory) :
    ∃ entries, node = directory entries := by
  cases node with
  | directory entries => exact ⟨entries, rfl⟩
  | file bytes => simp [entry] at h
  | link target => simp [entry] at h

theorem exists_directory_of_entry_cons (h : node.entryAt? (name :: path) = some e) :
    ∃ entries, node = directory entries := by
  cases node with
  | directory entries => exact ⟨entries, rfl⟩
  | file bytes => simp [entryAt?, find?] at h
  | link target => simp [entryAt?, find?] at h

/-- Only a directory has something below it. -/
theorem entryAt?_of_append (h : node.entryAt? (path ++ name :: more) = some e) :
    node.entryAt? path = some .directory := by
  unfold entryAt? at h ⊢
  rw [find?_append] at h
  cases hp : node.find? path with
  | none => simp [hp] at h
  | some child =>
    rw [hp, Option.bind_some] at h
    cases child with
    | directory entries => rfl
    | file bytes => simp [find?] at h
    | link target => simp [find?] at h

theorem entryAt?_on_way (h : node.entryAt? path = some e) (ha : above <+: path)
    (hn : above ≠ path) : node.entryAt? above = some .directory := by
  obtain ⟨more, rfl⟩ := ha
  cases more with
  | nil => simp at hn
  | cons name more => exact entryAt?_of_append h

/-- A node with nothing below it that is put into a directory, where there is no other one, changes
what stands at its own path and nothing else. -/
theorem entryAt?_put (hnew : ∀ name more, new.entryAt? (name :: more) = none)
    (habove : node.entryAt? above = some .directory)
    (hold : node.entryAt? (above ++ [name]) ≠ some .directory) (path : List String) :
    (new.put (above ++ [name]) node).entryAt? path =
      if path = above ++ [name] then some new.entry else node.entryAt? path := by
  induction above generalizing node path with
  | nil =>
    obtain ⟨entries, rfl⟩ := exists_directory_of_entry (by simpa using habove)
    cases path with
    | nil => rfl
    | cons key rest =>
      rw [List.nil_append, put, entryAt?_directory_cons, lookup_insertByName]
      by_cases hk : key = name
      · subst key
        cases rest with
        | nil => simp [put]
        | cons next more =>
          have hbelow : (directory entries).entryAt? ([name] ++ next :: more) = none :=
            Option.eq_none_iff_forall_ne_some.2 fun e he => hold (entryAt?_of_append he)
          simpa [put, hnew] using hbelow.symm
      · rw [if_neg hk, ← entryAt?_directory_cons]
        simp [hk]
  | cons first above ih =>
    obtain ⟨entries, rfl⟩ := exists_directory_of_entry_cons habove
    cases path with
    | nil => rfl
    | cons key rest =>
      rw [entryAt?_directory_cons] at habove
      rw [List.cons_append, entryAt?_directory_cons] at hold
      rw [List.cons_append, put, entryAt?_directory_cons, lookup_insertByName]
      by_cases hk : key = first
      · subst key
        obtain ⟨child, hl, hchild⟩ := Option.bind_eq_some_iff.1 habove
        rw [hl, Option.bind_some] at hold
        rw [if_pos rfl, hl, Option.getD_some, Option.bind_some, ih hchild hold,
          entryAt?_directory_cons, hl, Option.bind_some]
        simp
      · rw [if_neg hk, ← entryAt?_directory_cons]
        simp [hk]

end Node

namespace Disk

/-- What stands at a path from the root of a disk. -/
def entryAt? (disk : Disk) (path : List String) : Option Entry := disk.root.entryAt? path

end Disk

end ScriptHost
