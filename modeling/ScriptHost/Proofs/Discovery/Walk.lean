import ScriptHost.Discovery
import ScriptHost.Proofs.Disk.Growing
import ScriptHost.Proofs.FileName.Condensed
import ScriptHost.Proofs.NameMap
import ScriptHost.Proofs.Text.Order

/-! A walk meets all that is below a directory: a directory before what is in it, siblings in the
order of their names, and nothing behind a link. -/

namespace ScriptHost

/-- A tree whose directories hold their entries in the order of their names, each of which can be
the name of an entry. -/
inductive Node.Orderly : Node → Prop where
  | file (bytes : ByteArray) : Orderly (.file bytes)
  | link (target : String) : Orderly (.link target)
  | directory {entries : List (String × Node)} (sorted : entries.Pairwise (·.1 < ·.1))
      (proper : ∀ entry ∈ entries, FileName.Proper entry.1.toList)
      (inner : ∀ entry ∈ entries, Orderly entry.2) : Orderly (.directory entries)

namespace FileName

/-- The name of what is at a path below a directory. -/
def under (root : String) (path : List String) : String := path.foldl child root

@[simp] theorem under_nil (root : String) : under root [] = root := rfl

@[simp] theorem under_cons (root name : String) (path : List String) :
    under root (name :: path) = under (child root name) path := rfl

end FileName

open FileName

/-- What stands at the end of a path, to a walk. -/
def Entry.fileType : Entry → FileType
  | .file _ => .file
  | .link _ => .link
  | .directory => .directory

/-- What a walk that starts at a directory makes of what is below it. -/
def visit (directory : String) (met : List String × Entry) : WalkEntry :=
  ⟨under directory met.1, met.2.fileType⟩

namespace Node

variable {node tree : Node} {entries : List (String × Node)} {name other directory : String}
  {path above rest more : List String} {met : List (List String × Entry)} {e f : Entry}

/-- All that is below a directory by its paths, in the order of these. -/
structure Lists (tree : Node) (met : List (List String × Entry)) : Prop where
  complete : ∀ path e, (path, e) ∈ met ↔ path ≠ [] ∧ tree.entryAt? path = some e
  increasing : met.Pairwise fun one other => one.1.map Text.bytes < other.1.map Text.bytes

/-- What comes of a walk below a directory: all that is there, unless the path of a directory below
it is too long. -/
structure Walks (tree : Node) (directory : String) (steps : List (Except WalkError WalkEntry)) :
    Prop where
  short : (∀ path, path ≠ [] → tree.entryAt? path = some .directory →
      (under directory path).utf8ByteSize ≤ Disk.maxPath) →
    ∃ met, tree.Lists met ∧ steps = met.map (.ok ∘ visit directory)
  long : (∃ path, path ≠ [] ∧ tree.entryAt? path = some .directory ∧
      Disk.maxPath < (under directory path).utf8ByteSize) → ∃ error, .error error ∈ steps

theorem entryAt?_file {bytes : ByteArray} (h : path ≠ []) :
    (Node.file bytes).entryAt? path = none := by
  cases path with
  | nil => exact absurd rfl h
  | cons name path => rfl

theorem entryAt?_link {target : String} (h : path ≠ []) :
    (Node.link target).entryAt? path = none := by
  cases path with
  | nil => exact absurd rfl h
  | cons name path => rfl

theorem entryAt?_empty (h : path ≠ []) : (Node.directory []).entryAt? path = none := by
  cases path with
  | nil => exact absurd rfl h
  | cons name path => rfl

/-- What is below a single entry is behind its name. -/
theorem entryAt?_singleton_iff (h : path ≠ []) :
    (Node.directory [(name, node)]).entryAt? path = some e ↔
      ∃ rest, path = name :: rest ∧ node.entryAt? rest = some e := by
  cases path with
  | nil => exact absurd rfl h
  | cons key rest =>
    rw [entryAt?_directory_cons]
    by_cases hk : key = name
    · subst key
      simp
    · have hb : (key == name) = false := by simpa using hk
      simp [List.lookup_cons, hk, hb]

/-- What is below the first of entries with different names, or below one of the others. -/
theorem entryAt?_cons_iff (hn : ∀ entry ∈ entries, name < entry.1) (h : path ≠ []) :
    (Node.directory ((name, node) :: entries)).entryAt? path = some e ↔
      (Node.directory [(name, node)]).entryAt? path = some e ∨
        (Node.directory entries).entryAt? path = some e := by
  cases path with
  | nil => exact absurd rfl h
  | cons key rest =>
    simp only [entryAt?_directory_cons, List.lookup_cons]
    by_cases hk : key = name
    · subst key
      have hnone : entries.lookup name = none := by
        refine lookup_eq_none_iff_not_mem.2 fun hm => ?_
        obtain ⟨entry, he, hname⟩ := List.mem_map.1 hm
        exact String.lt_irrefl name (hname ▸ hn entry he)
      simp [hnone]
    · have hb : (key == name) = false := by simpa using hk
      simp [hb]

/-- What is below a directory is below one of its entries. -/
theorem exists_entry_of_entryAt? (hn : path ≠ [])
    (h : (Node.directory entries).entryAt? path = some e) :
    ∃ entry ∈ entries, ∃ rest, path = entry.1 :: rest := by
  cases path with
  | nil => exact absurd rfl hn
  | cons key rest =>
    rw [entryAt?_directory_cons] at h
    obtain ⟨node, hl, -⟩ := Option.bind_eq_some_iff.1 h
    obtain ⟨before, after, he, -⟩ := List.lookup_eq_some_iff.1 hl
    exact ⟨(key, node), by simp [he], rest, rfl⟩

/-- What is below the first entry stands before what is below the others. -/
theorem Lists.cons {others : List (List String × Entry)}
    (h : (Node.directory [(name, node)]).Lists met) (ho : (Node.directory entries).Lists others)
    (hn : ∀ entry ∈ entries, name < entry.1) :
    (Node.directory ((name, node) :: entries)).Lists (met ++ others) where
  complete path e := by
    rw [List.mem_append, h.complete, ho.complete, ← and_or_left]
    exact and_congr_right fun hp => (entryAt?_cons_iff hn hp).symm
  increasing := by
    refine List.pairwise_append.2 ⟨h.increasing, ho.increasing, ?_⟩
    rintro ⟨path, e⟩ hm ⟨other, f⟩ ho'
    obtain ⟨hp, he⟩ := (h.complete path e).1 hm
    obtain ⟨hother, hf⟩ := (ho.complete other f).1 ho'
    obtain ⟨entry, hentry, rest, rfl⟩ := exists_entry_of_entryAt? hp he
    obtain ⟨next, hnext, more, rfl⟩ := exists_entry_of_entryAt? hother hf
    obtain rfl := List.mem_singleton.1 hentry
    exact List.cons_lt_cons_iff.2 (.inl ((Text.lt_iff_bytes_lt _ _).1 (hn next hnext)))

theorem walks_empty (directory : String) : Walks (.directory []) directory [] where
  short _ := by
    refine ⟨[], ⟨fun path e => ⟨fun h => (List.not_mem_nil h).elim, fun h => ?_⟩, .nil⟩, rfl⟩
    simp [entryAt?_empty h.1] at h
  long := by
    rintro ⟨path, hn, hd, -⟩
    simp [entryAt?_empty hn] at hd

/-- A walk goes through the first entry and then through the others. -/
theorem Walks.cons {first others : List (Except WalkError WalkEntry)}
    (h : Walks (.directory [(name, node)]) directory first)
    (ho : Walks (.directory entries) directory others)
    (hn : ∀ entry ∈ entries, name < entry.1) :
    Walks (.directory ((name, node) :: entries)) directory (first ++ others) where
  short hs := by
    obtain ⟨met, hl, rfl⟩ := h.short fun path hp hd =>
      hs path hp ((entryAt?_cons_iff hn hp).2 (.inl hd))
    obtain ⟨more, hm, rfl⟩ := ho.short fun path hp hd =>
      hs path hp ((entryAt?_cons_iff hn hp).2 (.inr hd))
    exact ⟨met ++ more, hl.cons hm hn, List.map_append.symm⟩
  long := by
    rintro ⟨path, hp, hd, hlong⟩
    rcases (entryAt?_cons_iff hn hp).1 hd with hd | hd
    · obtain ⟨error, he⟩ := h.long ⟨path, hp, hd, hlong⟩
      exact ⟨error, List.mem_append_left _ he⟩
    · obtain ⟨error, he⟩ := ho.long ⟨path, hp, hd, hlong⟩
      exact ⟨error, List.mem_append_right _ he⟩

/-- What has nothing below it is all that is under its name. -/
theorem lists_single (h : ∀ path, path ≠ [] → node.entryAt? path = none) :
    (Node.directory [(name, node)]).Lists [([name], node.entry)] where
  complete path e := by
    constructor
    · intro hm
      obtain ⟨rfl, rfl⟩ := Prod.mk.inj (List.mem_singleton.1 hm)
      exact ⟨by simp, (entryAt?_singleton_iff (by simp)).2 ⟨[], rfl, by simp⟩⟩
    · rintro ⟨hp, he⟩
      obtain ⟨rest, rfl, hr⟩ := (entryAt?_singleton_iff hp).1 he
      by_cases hrest : rest = []
      · subst hrest
        obtain rfl : node.entry = e := by simpa using hr
        exact List.mem_singleton.2 rfl
      · simp [h rest hrest] at hr
  increasing := List.pairwise_singleton _ _

/-- A walk meets what has nothing below it, and goes no further. -/
theorem walks_single (h : ∀ path, path ≠ [] → node.entryAt? path = none)
    (hd : node.entry ≠ .directory) (directory : String) :
    Walks (.directory [(name, node)]) directory [.ok (visit directory ([name], node.entry))] where
  short _ := ⟨_, lists_single h, rfl⟩
  long := by
    rintro ⟨path, hp, he, -⟩
    obtain ⟨rest, rfl, hr⟩ := (entryAt?_singleton_iff hp).1 he
    by_cases hrest : rest = []
    · subst hrest
      exact absurd (by simpa using hr) hd
    · simp [h rest hrest] at hr

/-- A directory under a name stands before what is below it. -/
theorem Lists.behind (h : (Node.directory entries).Lists met) (name : String) :
    (Node.directory [(name, .directory entries)]).Lists
      (([name], .directory) :: met.map fun one => (name :: one.1, one.2)) where
  complete path e := by
    rw [List.mem_cons, List.mem_map]
    constructor
    · rintro (hself | ⟨⟨rest, f⟩, hm, hbelow⟩)
      · obtain ⟨rfl, rfl⟩ := Prod.mk.inj hself
        exact ⟨by simp, (entryAt?_singleton_iff (by simp)).2 ⟨[], rfl, rfl⟩⟩
      · obtain ⟨rfl, rfl⟩ := Prod.mk.inj hbelow
        obtain ⟨-, hr⟩ := (h.complete rest f).1 hm
        exact ⟨by simp, (entryAt?_singleton_iff (by simp)).2 ⟨rest, rfl, hr⟩⟩
    · rintro ⟨hp, he⟩
      obtain ⟨rest, rfl, hr⟩ := (entryAt?_singleton_iff hp).1 he
      by_cases hrest : rest = []
      · subst hrest
        obtain rfl : Entry.directory = e := by simpa [entry] using hr
        exact .inl rfl
      · exact .inr ⟨(rest, e), (h.complete rest e).2 ⟨hrest, hr⟩, rfl⟩
  increasing := by
    refine List.pairwise_cons.2 ⟨fun other ho => ?_, List.pairwise_map.2 (h.increasing.imp ?_)⟩
    · obtain ⟨⟨rest, e⟩, hm, rfl⟩ := List.mem_map.1 ho
      obtain ⟨next, more, rfl⟩ := List.exists_cons_of_ne_nil ((h.complete rest e).1 hm).1
      exact List.cons_lt_cons_iff.2 (.inr ⟨rfl, List.nil_lt_cons _ _⟩)
    · exact fun hlt => List.cons_lt_cons_iff.2 (.inr ⟨rfl, hlt⟩)

/-- A walk goes into a directory if its path is not too long. -/
theorem walks_directory
    (h : Walks (.directory entries) (child directory name)
      (walkEntries (child directory name) entries)) :
    Walks (.directory [(name, .directory entries)]) directory
      ((Node.directory entries).walkDir (child directory name)) where
  short hs := by
    have hself : (child directory name).utf8ByteSize ≤ Disk.maxPath :=
      hs [name] (by simp) ((entryAt?_singleton_iff (by simp)).2 ⟨[], rfl, rfl⟩)
    obtain ⟨met, hl, hw⟩ := h.short fun path hp hd =>
      hs (name :: path) (by simp) ((entryAt?_singleton_iff (by simp)).2 ⟨path, rfl, hd⟩)
    refine ⟨_, hl.behind name, ?_⟩
    rw [walkDir, if_neg (Nat.not_lt.2 hself), hw, List.map_cons, List.map_map]
    rfl
  long := by
    rintro ⟨path, hn, hd, hlong⟩
    obtain ⟨rest, rfl, hr⟩ := (entryAt?_singleton_iff hn).1 hd
    rw [walkDir]
    split
    · exact ⟨_, List.mem_cons_of_mem _ (List.mem_singleton.2 rfl)⟩
    · have hrest : rest ≠ [] := by
        rintro rfl
        exact absurd hlong ‹_›
      obtain ⟨error, he⟩ := h.long ⟨rest, hrest, hr, hlong⟩
      exact ⟨error, List.mem_cons_of_mem _ he⟩

/-- A walk of a directory goes through its entries. -/
theorem walks_entries (sorted : entries.Pairwise (·.1 < ·.1)) (directory : String)
    (h : ∀ entry ∈ entries, Walks (.directory [(entry.1, entry.2)]) directory
      (entry.2.walkDir (child directory entry.1))) :
    Walks (.directory entries) directory (walkEntries directory entries) := by
  induction entries with
  | nil => exact walks_empty directory
  | cons entry entries ih =>
    obtain ⟨hfirst, sorted⟩ := List.pairwise_cons.1 sorted
    obtain ⟨hentry, h⟩ := List.forall_mem_cons.1 h
    exact hentry.cons (ih sorted h) hfirst

/-- A walk of what is under a name in an orderly tree meets all that is there. -/
theorem Orderly.walks (ho : node.Orderly) (name directory : String) :
    Walks (.directory [(name, node)]) directory (node.walkDir (child directory name)) := by
  induction ho generalizing name directory with
  | file bytes => exact walks_single (fun _ => entryAt?_file) (by simp [entry]) directory
  | link target => exact walks_single (fun _ => entryAt?_link) (by simp [entry]) directory
  | directory sorted proper inner ih =>
    exact walks_directory (walks_entries sorted _ fun entry he => ih entry he _ _)

/-- Of two entries that a list in increasing order holds, the lesser one stands first. -/
theorem pair_sublist {α : Type} {r : α → α → Prop} {l : List α} {a b : α} (h : l.Pairwise r)
    (hasymm : ∀ a b, r a b → ¬ r b a) (ha : a ∈ l) (hb : b ∈ l) (hab : r a b) :
    [a, b].Sublist l := by
  induction l with
  | nil => cases ha
  | cons c l ih =>
    obtain ⟨hc, h⟩ := List.pairwise_cons.1 h
    rcases List.mem_cons.1 ha with rfl | ha'
    · rcases List.mem_cons.1 hb with rfl | hb
      · exact absurd hab (hasymm _ _ hab)
      · exact (List.singleton_sublist.2 hb).cons_cons _
    · rcases List.mem_cons.1 hb with rfl | hb
      · exact absurd hab (hasymm _ _ (hc a ha'))
      · exact (ih h ha' hb).cons _

theorem Lists.sublist (hl : tree.Lists met) (h : (path, e) ∈ met) (ho : (rest, f) ∈ met)
    (hlt : path.map Text.bytes < rest.map Text.bytes) :
    [(path, e), (rest, f)].Sublist met :=
  pair_sublist hl.increasing (fun _ _ => List.lt_asymm) h ho hlt

/-- A directory stands before its content. -/
theorem Lists.directory_first (hl : tree.Lists met) (h : (path, e) ∈ met)
    (hbelow : (path ++ name :: rest, f) ∈ met) :
    [(path, e), (path ++ name :: rest, f)].Sublist met := by
  refine hl.sublist h hbelow ?_
  rw [List.map_append, ← List.append_nil (path.map Text.bytes), List.append_assoc]
  exact List.append_left_lt (List.nil_lt_cons _ _)

/-- Siblings, with all that is below them, stand in the order of the bytes of their names. -/
theorem Lists.siblings_in_order (hl : tree.Lists met) (h : (above ++ name :: rest, e) ∈ met)
    (ho : (above ++ other :: more, f) ∈ met) (hlt : Text.bytes name < Text.bytes other) :
    [(above ++ name :: rest, e), (above ++ other :: more, f)].Sublist met := by
  refine hl.sublist h ho ?_
  simp only [List.map_append, List.map_cons]
  exact List.append_left_lt (List.cons_lt_cons_iff.2 (.inl hlt))

/-- Links are not followed. -/
theorem Lists.nothing_behind_link {target : String} (hl : tree.Lists met)
    (h : (path, .link target) ∈ met) : (path ++ name :: rest, e) ∉ met := by
  intro hbelow
  obtain ⟨-, hlink⟩ := (hl.complete _ _).1 h
  obtain ⟨-, he⟩ := (hl.complete _ _).1 hbelow
  obtain ⟨node, hf, hnode⟩ := Option.map_eq_some_iff.1 hlink
  obtain rfl : node = .link target := by cases node <;> simp_all [entry]
  rw [entryAt?, find?_append, hf] at he
  exact absurd he (by simp [find?])

end Node

namespace Disk

variable {disk : Disk} {root : String} {place target : Place} {links : Nat} {names : List String}

/-- What leads to a directory leads there, or to a link, if the last link is not followed. -/
theorem Leads.atLink (h : Leads disk .look links names place (.directory target)) :
    Leads disk .lookAtLink links names place (.directory target) ∨
      ∃ path other, Leads disk .lookAtLink links names place (.link path other) := by
  generalize hlook : Purpose.look = purpose at h
  generalize hspot : Spot.directory target = spot at h ⊢
  induction h with
  | arrived => exact .inl .arrived
  | idle hn next ih =>
    exact (ih hspot).imp (.idle hn) fun ⟨path, other, h⟩ => ⟨path, other, .idle hn h⟩
  | up next ih => exact (ih hspot).imp .up fun ⟨path, other, h⟩ => ⟨path, other, .up h⟩
  | enter hs hc hr he next ih =>
    exact (ih hspot).imp (.enter hs (by simp) hr he)
      fun ⟨path, other, h⟩ => ⟨path, other, .enter hs (by simp) hr he h⟩
  | file hs hr he => simp at hspot
  | missing hs hc hr he hl => simp at hspot
  | link hs hp hr he => simp at hspot
  | @through links name rest place next spot hs hc hr he hl hnext ih =>
    by_cases hrest : rest = []
    · subst hrest
      exact .inr ⟨_, next, .link hs rfl hr he⟩
    · have hl' : ¬ (rest = [] ∧ Purpose.lookAtLink = .lookAtLink) := by simp [hrest]
      exact (ih hspot).imp (.through hs (by simp) hr he hl')
        fun ⟨path, other, h⟩ => ⟨path, other, .through hs (by simp) hr he hl' h⟩

/-- A walk that starts at a path to a directory goes through the directory, also behind a link. -/
theorem walkDir_of_directory (h : disk.resolve .look root = .ok (.directory place)) :
    ∃ kind, kind ≠ .file ∧
      disk.walkDir root = .ok ⟨root, kind⟩ :: walkEntries root (disk.entriesAt place) := by
  obtain ⟨hf, hleads⟩ := resolve_eq_ok_iff.1 h
  unfold walkDir
  rcases hleads.atLink with hd | ⟨path, other, hl⟩
  · refine ⟨.directory, by decide, ?_⟩
    rw [resolve_eq_ok_iff.2 ⟨hf, hd⟩]
    simp only [Node.walkDir, if_neg (Nat.not_lt.2 hf.size_le)]
  · refine ⟨.link, by decide, ?_⟩
    simp only [resolve_eq_ok_iff.2 ⟨hf, hl⟩, h]

/-- A walk that starts at a path to an orderly directory meets all that is below it. It fails if the
path of a directory there is too long. -/
theorem walks_of_directory (h : disk.resolve .look root = .ok (.directory place))
    (ho : (Node.directory (disk.entriesAt place)).Orderly) :
    ∃ kind steps, kind ≠ .file ∧ disk.walkDir root = .ok ⟨root, kind⟩ :: steps ∧
      (Node.directory (disk.entriesAt place)).Walks root steps := by
  obtain ⟨kind, hk, hw⟩ := walkDir_of_directory h
  refine ⟨kind, _, hk, hw, ?_⟩
  cases ho with
  | directory sorted proper inner =>
    exact Node.walks_entries sorted root fun entry he => (inner entry he).walks _ root

end Disk

end ScriptHost
