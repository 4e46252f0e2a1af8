import ScriptHost.Proofs.Discovery.Walk

/-! What a search of a directory finds: all sources below it, each once, in the order of their
paths. -/

namespace ScriptHost

namespace FileName

variable {root directory name : String} {path other : List String}

instance (segment : List Char) : Decidable (Proper segment) :=
  decidable_of_iff (isIdle segment = false ∧ '/' ∉ segment)
    ⟨fun h => ⟨h.1, h.2⟩, fun h => ⟨h.busy, h.whole⟩⟩

/-- A directory as the name of an entry is put behind it. -/
def ahead (directory : String) : List Char :=
  directory.toList ++ if directory.toList.getLast? = some '/' then [] else ['/']

theorem toList_child (directory name : String) :
    (child directory name).toList = ahead directory ++ name.toList := by
  unfold child ahead
  by_cases h : directory.toList.getLast? = some '/'
  · simp [h]
  · simp [h]

theorem ahead_child (directory : String) (h : Proper name.toList) :
    ahead (child directory name) = ahead directory ++ name.toList ++ ['/'] := by
  have hl : (child directory name).toList.getLast? ≠ some '/' := by
    rw [toList_child, List.getLast?_append_of_ne_nil _ h.ne_nil]
    exact fun he => h.whole (List.mem_of_getLast? he)
  rw [ahead, if_neg hl, toList_child]

/-- The name of what is below a directory is the directory and the names on the way. -/
theorem toList_under (h : ∀ name ∈ path, Proper name.toList) (hn : path ≠ []) :
    (under root path).toList = ahead root ++ join (path.map String.toList) := by
  induction path generalizing root with
  | nil => exact absurd rfl hn
  | cons name path ih =>
    obtain ⟨hfirst, h⟩ := List.forall_mem_cons.1 h
    cases path with
    | nil => simp [toList_child, join]
    | cons next path =>
      rw [under_cons, ih h (by simp), ahead_child root hfirst, List.map_cons, List.map_cons,
        List.map_cons, join_cons name.toList, List.flatMap_cons, List.cons_append, ← join_cons]
      simp

/-- Different paths below a directory have different names. -/
theorem under_injective (h : ∀ name ∈ path, Proper name.toList)
    (ho : ∀ name ∈ other, Proper name.toList) (hn : path ≠ []) (hno : other ≠ [])
    (he : under root path = under root other) : path = other := by
  have hj := congrArg String.toList he
  rw [toList_under h hn, toList_under ho hno, List.append_cancel_left_eq] at hj
  have hs := congrArg (List.splitOn '/') hj
  rw [splitOn_join_of_whole (by simpa using fun name hm => (h name hm).whole) (by simpa using hn),
    splitOn_join_of_whole (by simpa using fun name hm => (ho name hm).whole) (by simpa using hno)]
    at hs
  exact List.map_injective_iff.2 (fun _ _ h => String.toList_injective h) hs

theorem basePart_append (cs : List Char) {ds : List Char} (h : '/' ∉ ds) :
    basePart (cs ++ '/' :: ds) = ds := by
  have hw : ∀ c ∈ ds.reverse, (c != '/') = true :=
    ne_slash_of_not_mem fun hm => h (List.mem_reverse.1 hm)
  have hr : (cs ++ '/' :: ds).reverse = ds.reverse ++ '/' :: cs.reverse := by simp
  rw [basePart, hr, List.takeWhile_append_of_pos hw, List.takeWhile_cons_of_neg (by simp),
    List.append_nil, List.reverse_reverse]

theorem basePart_of_whole {ds : List Char} (h : '/' ∉ ds) : basePart ds = ds := by
  have hw : ∀ c ∈ ds.reverse, (c != '/') = true :=
    ne_slash_of_not_mem fun hm => h (List.mem_reverse.1 hm)
  rw [basePart, List.takeWhile_eq_self_iff.2 hw, List.reverse_reverse]

theorem under_append_singleton (root : String) (path : List String) (name : String) :
    under root (path ++ [name]) = child (under root path) name := by
  simp [under]

/-- Whether the name of an entry is that of a source has nothing to do with where the entry is. -/
theorem isSource_child (directory : String) (h : '/' ∉ name.toList) :
    isSource (child directory name) = isSource name := by
  obtain ⟨front, hf⟩ : ∃ front, ahead directory = front ++ ['/'] := by
    unfold ahead
    split
    · rename_i hl
      obtain ⟨front, hf⟩ := List.getLast?_eq_some_iff.1 hl
      exact ⟨front, by simp [hf]⟩
    · exact ⟨_, rfl⟩
  have hb : basePart (child directory name).toList = basePart name.toList := by
    rw [toList_child, hf, List.append_assoc, List.singleton_append, basePart_append front h,
      basePart_of_whole h]
  rw [isSource, isSource, extension?, extension?, hb]

/-- An extension is what follows the last dot, when something stands before that. -/
theorem extension?_eq_some_iff {extension : String} (h : '/' ∉ name.toList) :
    extension? name = some extension ↔ '.' ∉ extension.toList ∧
      ∃ stem, stem ≠ "" ∧ name = stem ++ "." ++ extension := by
  rw [extension?, basePart_of_whole h]
  constructor
  · intro he
    have hsplit := List.takeWhile_append_dropWhile (p := (· != '.')) (l := name.toList.reverse)
    have hhead := List.head?_dropWhile_not (· != '.') name.toList.reverse
    split at he
    · rename_i dot last stem hd
      obtain rfl := Option.some.inj he
      obtain rfl : dot = '.' := by simpa [hd] using hhead
      refine ⟨fun hm => ?_, String.ofList (last :: stem).reverse, ?_, ?_⟩
      · rw [String.toList_ofList, List.mem_reverse] at hm
        simpa using List.mem_takeWhile_imp hm
      · rw [Ne, ← String.toList_inj, String.toList_ofList]
        simp
      · rw [hd] at hsplit
        generalize name.toList.reverse.takeWhile (· != '.') = ending at hsplit
        rw [← String.toList_inj, ← List.reverse_inj, ← hsplit]
        simp
    · cases he
  · rintro ⟨hdot, stem, hn, rfl⟩
    have hw : ∀ c ∈ extension.toList.reverse, (c != '.') = true := by
      intro c hc
      rw [List.mem_reverse] at hc
      simpa using fun he : c = '.' => hdot (he ▸ hc)
    have hr : (stem ++ "." ++ extension).toList.reverse =
        extension.toList.reverse ++ '.' :: stem.toList.reverse := by simp
    obtain ⟨last, more, hs⟩ := List.exists_cons_of_ne_nil (l := stem.toList.reverse)
      fun he => hn (by simpa using he)
    rw [hr, List.dropWhile_append_of_pos hw, List.takeWhile_append_of_pos hw,
      List.dropWhile_cons_of_neg (by simp), List.takeWhile_cons_of_neg (by simp), hs]
    simp

/-- The names of sources: something, a dot, and an extension of sources. -/
theorem isSource_iff (h : '/' ∉ name.toList) : isSource name = true ↔
    ∃ stem, stem ≠ "" ∧ (name = stem ++ ".ts" ∨ name = stem ++ ".tsx") := by
  have hts (stem : String) : stem ++ "." ++ "ts" = stem ++ ".ts" := String.append_assoc
  have htsx (stem : String) : stem ++ "." ++ "tsx" = stem ++ ".tsx" := String.append_assoc
  simp only [isSource, Bool.or_eq_true, beq_iff_eq, extension?_eq_some_iff h, hts, htsx]
  constructor
  · rintro (⟨-, stem, hn, he⟩ | ⟨-, stem, hn, he⟩)
    · exact ⟨stem, hn, .inl he⟩
    · exact ⟨stem, hn, .inr he⟩
  · rintro ⟨stem, hn, he | he⟩
    · exact .inl ⟨by decide, stem, hn, he⟩
    · exact .inr ⟨by decide, stem, hn, he⟩

end FileName

namespace Node

open FileName

variable {node tree : Node} {path : List String} {met : List (List String × Entry)} {e : Entry}

/-- All names on the way to what is in an orderly tree are proper. -/
theorem Orderly.proper_of_entry (ho : node.Orderly) (h : node.entryAt? path = some e) :
    ∀ name ∈ path, Proper name.toList := by
  induction ho generalizing path with
  | file bytes =>
    by_cases hp : path = []
    · simp [hp]
    · simp [entryAt?_file hp] at h
  | link target =>
    by_cases hp : path = []
    · simp [hp]
    · simp [entryAt?_link hp] at h
  | @directory entries sorted proper inner ih =>
    cases path with
    | nil => simp
    | cons key rest =>
      rw [entryAt?_directory_cons] at h
      obtain ⟨node, hl, hr⟩ := Option.bind_eq_some_iff.1 h
      obtain ⟨before, after, he, -⟩ := List.lookup_eq_some_iff.1 hl
      have hm : (key, node) ∈ entries := by simp [he]
      exact List.forall_mem_cons.2 ⟨proper _ hm, ih _ hm hr⟩

/-- The paths of the sources in what a walk from a root meets. -/
def sourcePaths (root : String) (met : List (List String × Entry)) : List (List String) :=
  (met.filter fun one => (visit root one).isSource).map Prod.fst

/-- A path leads to a source if it leads to a file and has something, a dot and an extension of
sources at its end. -/
theorem Lists.mem_sourcePaths_iff (hl : tree.Lists met) (ho : tree.Orderly) (root : String) :
    path ∈ sourcePaths root met ↔ (∃ bytes, tree.entryAt? path = some (.file bytes)) ∧
      ∃ above stem, stem ≠ "" ∧
        (path = above ++ [stem ++ ".ts"] ∨ path = above ++ [stem ++ ".tsx"]) := by
  have hname {above : List String} {name : String} {bytes : ByteArray}
      (hf : tree.entryAt? (above ++ [name]) = some (.file bytes)) :
      isSource (under root (above ++ [name])) = true ↔
        ∃ stem, stem ≠ "" ∧ (name = stem ++ ".ts" ∨ name = stem ++ ".tsx") := by
    have hp : Proper name.toList := ho.proper_of_entry hf name (by simp)
    rw [under_append_singleton, isSource_child _ hp.whole, isSource_iff hp.whole]
  simp only [sourcePaths, List.mem_map, List.mem_filter, WalkEntry.isSource, visit,
    Bool.and_eq_true, beq_iff_eq]
  constructor
  · rintro ⟨⟨path, e⟩, ⟨hm, hfile, hs⟩, rfl⟩
    obtain ⟨hn, he⟩ := (hl.complete path e).1 hm
    obtain ⟨bytes, rfl⟩ : ∃ bytes, e = .file bytes := by cases e <;> simp_all [Entry.fileType]
    obtain ⟨above, name, rfl⟩ := (List.eq_nil_or_concat' path).resolve_left hn
    obtain ⟨stem, hstem, rfl | rfl⟩ := (hname he).1 hs
    · exact ⟨⟨bytes, he⟩, above, stem, hstem, .inl rfl⟩
    · exact ⟨⟨bytes, he⟩, above, stem, hstem, .inr rfl⟩
  · rintro ⟨⟨bytes, hf⟩, above, stem, hstem, hend⟩
    obtain ⟨name, rfl, hs⟩ : ∃ name, path = above ++ [name] ∧
        (name = stem ++ ".ts" ∨ name = stem ++ ".tsx") := by
      rcases hend with rfl | rfl
      · exact ⟨_, rfl, .inl rfl⟩
      · exact ⟨_, rfl, .inr rfl⟩
    refine ⟨⟨above ++ [name], .file bytes⟩, ⟨?_, rfl, (hname hf).2 ⟨stem, hstem, hs⟩⟩, rfl⟩
    exact (hl.complete _ _).2 ⟨by simp, hf⟩

theorem Lists.pairwise_sourcePaths (hl : tree.Lists met) (root : String) :
    (sourcePaths root met).Pairwise fun path other =>
      path.map Text.bytes < other.map Text.bytes :=
  List.pairwise_map.2 (hl.increasing.filter _)

/-- The names of sources below a directory are different, as their paths are. -/
theorem Lists.nodup_sources (hl : tree.Lists met) (ho : tree.Orderly) (root : String) :
    ((sourcePaths root met).map fun path => Descriptor.file (under root path)).Nodup := by
  have hpath : ∀ path ∈ sourcePaths root met, path ≠ [] ∧ ∀ name ∈ path, Proper name.toList := by
    intro path hp
    obtain ⟨⟨bytes, hf⟩, above, stem, -, hend⟩ := (hl.mem_sourcePaths_iff ho root).1 hp
    exact ⟨by rcases hend with rfl | rfl <;> simp, ho.proper_of_entry hf⟩
  refine List.pairwise_map.2 ((hl.pairwise_sourcePaths root).imp_of_mem ?_)
  intro path other hp hother hlt he
  obtain ⟨hn, hproper⟩ := hpath path hp
  obtain ⟨hno, hotherproper⟩ := hpath other hother
  obtain rfl := under_injective hproper hotherproper hn hno (Descriptor.file.inj he)
  exact List.lt_irrefl _ hlt

end Node

section Steps

variable {α ε δ : Type} {f : ε → δ} {steps : List (Except ε α)} {error : ε}

theorem mapM_map_ok (f : ε → δ) (entries : List α) :
    (entries.map .ok).mapM (fun step : Except ε α => step.mapError f) = .ok entries := by
  induction entries with
  | nil => rfl
  | cons entry entries ih =>
    rw [List.map_cons, List.mapM_cons, ih]
    rfl

theorem exists_mapM_eq_error (h : .error error ∈ steps) :
    ∃ error, steps.mapM (fun step => step.mapError f) = .error (f error) := by
  induction steps with
  | nil => cases h
  | cons step steps ih =>
    rw [List.mapM_cons]
    cases step with
    | error first => exact ⟨first, rfl⟩
    | ok entry =>
      obtain ⟨first, hs⟩ := ih (by simpa using h)
      rw [hs]
      exact ⟨first, rfl⟩

end Steps

namespace Disk

variable {disk : Disk} {root : String} {kind : FileType} {met : List (List String × Entry)}

/-- A search picks the sources of a walk in which no step fails. -/
theorem discover_of_entries {entries : List WalkEntry} (h : disk.walkDir root = entries.map .ok) :
    disk.discover root = .ok ((entries.filter WalkEntry.isSource).map (.file ·.path)) := by
  rw [discover, h, mapM_map_ok]
  rfl

/-- A search takes what is below its root by its paths, and nothing for the root itself. -/
theorem discover_of_met (h : disk.walkDir root = .ok ⟨root, kind⟩ :: met.map (.ok ∘ visit root))
    (hk : kind ≠ .file) : disk.discover root =
      .ok ((Node.sourcePaths root met).map fun path => .file (FileName.under root path)) := by
  have hentries : disk.walkDir root =
      ((⟨root, kind⟩ :: met.map (visit root) : List WalkEntry)).map .ok := by
    rw [h, List.map_cons, List.map_map]
  have hself : ¬ (⟨root, kind⟩ : WalkEntry).isSource = true := by simp [WalkEntry.isSource, hk]
  rw [discover_of_entries hentries, List.filter_cons_of_neg hself, List.filter_map,
    Node.sourcePaths, List.map_map, List.map_map]
  rfl

/-- A search fails if a step of its walk does. -/
theorem exists_discover_eq_error {error : WalkError} (h : .error error ∈ disk.walkDir root) :
    ∃ source, disk.discover root = .error ⟨root, source⟩ := by
  obtain ⟨source, hs⟩ := exists_mapM_eq_error (f := (⟨root, ·⟩ : WalkError → DiscoveryError)) h
  rw [discover, hs]
  exact ⟨source, rfl⟩

end Disk

open FileName

/-- A search finds all sources below a directory, each once, and nothing else, in the order of their
paths, which are compared name by name in bytes. It finds them as long as no directory below has a
name that is too long. -/
theorem discover_lists_sources (disk : Disk) (root : String) (place : Place)
    (hroot : disk.resolve .look root = .ok (.directory place))
    (ho : (Node.directory (disk.entriesAt place)).Orderly) :
    let tree := Node.directory (disk.entriesAt place)
    ((∃ found, disk.discover root = .ok found) ↔ ∀ path, tree.entryAt? path = some .directory →
      (under root path).utf8ByteSize ≤ Disk.maxPath) ∧
    ∀ found, disk.discover root = .ok found → found.Nodup ∧
      ∃ paths : List (List String), found = paths.map (fun path => .file (under root path)) ∧
        (∀ path, path ∈ paths ↔ (∃ bytes, tree.entryAt? path = some (.file bytes)) ∧
          ∃ above stem, stem ≠ "" ∧
            (path = above ++ [stem ++ ".ts"] ∨ path = above ++ [stem ++ ".tsx"])) ∧
        paths.Pairwise fun path other => path.map Text.bytes < other.map Text.bytes := by
  intro tree
  obtain ⟨kind, steps, hkind, hwalk, hw⟩ := Disk.walks_of_directory hroot ho
  have hshort : root.utf8ByteSize ≤ Disk.maxPath := (Disk.resolve_eq_ok_iff.1 hroot).1.size_le
  by_cases hall : ∀ path, path ≠ [] → tree.entryAt? path = some .directory →
      (under root path).utf8ByteSize ≤ Disk.maxPath
  · obtain ⟨met, hl, rfl⟩ := hw.short hall
    rw [Disk.discover_of_met hwalk hkind]
    refine ⟨⟨fun _ path hd => ?_, fun _ => ⟨_, rfl⟩⟩, fun found hok => ?_⟩
    · by_cases hp : path = []
      · rwa [hp]
      · exact hall path hp hd
    · obtain rfl := Except.ok.inj hok
      exact ⟨hl.nodup_sources ho root, _, rfl, fun path => hl.mem_sourcePaths_iff ho root,
        hl.pairwise_sourcePaths root⟩
  · push Not at hall
    obtain ⟨error, he⟩ := hw.long hall
    obtain ⟨source, hfailed⟩ := Disk.exists_discover_eq_error
      (hwalk ▸ List.mem_cons_of_mem _ he : .error error ∈ disk.walkDir root)
    rw [hfailed]
    obtain ⟨path, hp, hd, hpath⟩ := hall
    exact ⟨⟨fun ⟨found, he⟩ => (nomatch he), fun h => absurd (h path hd) (Nat.not_le.2 hpath)⟩,
      fun found he => (nomatch he)⟩

/-- A file, behind the name that it has. -/
def emptyFile (name : String) : String × Node := (name, .file "".toUTF8)

/-- Sources beside a directory whose name is a beginning of theirs, one that is hidden, and a link
and a directory with the names of sources. -/
def sourceEntries : List (String × Node) := [
  emptyFile ".ts", ("a", .directory [emptyFile "b.ts"]), emptyFile "a.ts",
  ("dir.ts", .directory [emptyFile "c.tsx"]), ("x.ts", .link "a.ts"), emptyFile "é.ts"]

theorem orderly_sourceEntries : (Node.directory sourceEntries).Orderly := by
  have hfile (name : String) : (emptyFile name).2.Orderly := .file _
  have hsingle (name : String) (hp : FileName.Proper name.toList) :
      (Node.directory [emptyFile name]).Orderly :=
    .directory (List.pairwise_singleton _ _) (by simpa [emptyFile] using hp)
      (by simpa using hfile name)
  refine .directory (by decide +kernel) (by decide +kernel) ?_
  simp only [sourceEntries, List.forall_mem_cons]
  exact ⟨hfile _, hsingle _ (by decide +kernel), hfile _, hsingle _ (by decide +kernel), .link _,
    hfile _, by simp⟩

/-- A search behind a link. The file in the directory stands before the one that has its name with
an ending, as the name of the directory does. -/
theorem discover_lists_sources_behind_a_link :
    let disk : Disk := ⟨.directory [("home", .link "w"), ("w", .directory sourceEntries)], .root⟩
    let found := ["home/a/b.ts", "home/a.ts", "home/dir.ts/c.tsx", "home/é.ts"].map Descriptor.file
    disk.discover "home" = .ok found ∧ found.Nodup ∧
      ∃ paths : List (List String), found = paths.map (fun path => .file (under "home" path)) ∧
        ["dir.ts", "c.tsx"] ∈ paths ∧
        paths.Pairwise fun path other => path.map Text.bytes < other.map Text.bytes := by
  intro disk found
  have hfound : disk.discover "home" = .ok found := by
    have ho : (disk.discover "home").toOption = some found := by decide +kernel
    cases hd : disk.discover "home" with
    | error error => simp [hd, Except.toOption] at ho
    | ok others => simpa [hd, Except.toOption] using ho
  obtain ⟨-, hall⟩ := discover_lists_sources disk "home" ⟨["w"], 0⟩ rfl orderly_sourceEntries
  obtain ⟨hnodup, paths, hpaths, hcomplete, hincreasing⟩ := hall found hfound
  refine ⟨hfound, hnodup, paths, hpaths, (hcomplete _).2 ⟨⟨_, rfl⟩, ["dir.ts"], "c", ?_⟩,
    hincreasing⟩
  exact ⟨by decide, .inr rfl⟩

end ScriptHost
