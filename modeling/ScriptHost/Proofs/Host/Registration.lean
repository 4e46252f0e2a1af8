import ScriptHost.Compilation
import ScriptHost.Proofs.NameMap

/-! Sources registered one after another: a map has the text that each name was last given, and the
names stand in the order in which they were first given. -/

namespace ScriptHost

variable {names more : List String} {name : String}

theorem nodup_concat (h : names.Nodup) (hn : name ∉ names) : (names ++ [name]).Nodup := by
  simpa using h.concat hn

theorem nodup_addNames (h : names.Nodup) : (addNames names more).Nodup := by
  induction more generalizing names with
  | nil => exact h
  | cons name more ih =>
    by_cases hm : name ∈ names
    · simpa [addNames, hm] using ih h
    · simpa [addNames, hm] using ih (nodup_concat h hm)

theorem mem_addNames : name ∈ addNames names more ↔ name ∈ names ∨ name ∈ more := by
  induction more generalizing names with
  | nil => simp [addNames]
  | cons first more ih =>
    by_cases hm : first ∈ names
    · have hfirst : name = first → name ∈ names := fun he => he ▸ hm
      rw [addNames, List.foldl_cons, if_pos hm, ← addNames, ih, List.mem_cons]
      tauto
    · rw [addNames, List.foldl_cons, if_neg hm, ← addNames, ih, List.mem_append,
        List.mem_singleton, List.mem_cons, or_assoc]

theorem subset_addNames : names ⊆ addNames names more := fun _ hn => mem_addNames.2 (.inl hn)

theorem addNames_append (names first second : List String) :
    addNames names (first ++ second) = addNames (addNames names first) second := List.foldl_append

/-- Names that are all new are added as they are. -/
theorem addNames_of_nodup (h : (names ++ more).Nodup) : addNames names more = names ++ more := by
  induction more generalizing names with
  | nil => simp [addNames]
  | cons name more ih =>
    have hn : name ∉ names := fun hm => (List.nodup_append.1 h).2.2 name hm name (by simp) rfl
    have hr : addNames (names ++ [name]) more = names ++ [name] ++ more := ih (by simpa using h)
    rw [addNames, List.foldl_cons, if_neg hn, ← addNames, hr]
    simp

namespace Host

variable {host : Host}

/-- The texts of the sources of a host, and their names in order. -/
def registry (host : Host) : NameMap String × List String := (host.sources, host.sourceNames)

/-- The names in order are those that have a text, each once. -/
structure InStep (host : Host) : Prop where
  nodup : host.sourceNames.Nodup
  mem_iff : ∀ name, name ∈ host.sourceNames ↔ name ∈ host.sources.names

theorem InStep.get?_isNone (h : host.InStep) (name : String) :
    (host.sources.get? name).isNone = true ↔ name ∉ host.sourceNames := by
  rw [h.mem_iff, NameMap.mem_names_iff, Option.isNone_iff_eq_none, ← Option.isSome_iff_exists,
    Option.not_isSome_iff_eq_none]

theorem InStep.of_registry {other : Host} (h : host.InStep) (he : other.registry = host.registry) :
    other.InStep := by
  obtain ⟨hs, hn⟩ := Prod.mk.inj he
  exact ⟨hn ▸ h.nodup, fun name => hn ▸ hs ▸ h.mem_iff name⟩

theorem inStep_of_empty (hs : host.sources = .empty) (hn : host.sourceNames = []) : host.InStep :=
  ⟨hn ▸ List.nodup_nil, fun name => by simp [hs, hn, NameMap.names, NameMap.empty]⟩

/-- A registration adds the name of its source unless it is there. -/
theorem InStep.sourceNames_addSource (h : host.InStep) (name contents : String) :
    (host.addSource name contents).sourceNames = addNames host.sourceNames [name] := by
  unfold addSource addNames
  by_cases hn : name ∈ host.sourceNames
  · have hs : ¬ (host.sources.get? name).isNone = true := fun hs => (h.get?_isNone name).1 hs hn
    simp [hn, hs]
  · simp [hn, (h.get?_isNone name).2 hn]

/-- Every registration keeps the map and the order in step. -/
theorem InStep.addSource (h : host.InStep) (name contents : String) :
    (host.addSource name contents).InStep := by
  refine ⟨?_, fun other => ?_⟩
  · rw [h.sourceNames_addSource]
    exact nodup_addNames h.nodup
  · rw [h.sourceNames_addSource, mem_addNames, h.mem_iff, NameMap.mem_names_iff,
      NameMap.mem_names_iff, List.mem_singleton]
    simp only [Host.addSource, NameMap.get?_insert]
    by_cases he : other = name <;> simp [he]

/-- The host with sources registered one after another. -/
def addSources (host : Host) (entries : List (String × String)) : Host :=
  entries.foldl (fun host entry => host.addSource entry.1 entry.2) host

theorem addSources_append (host : Host) (first second : List (String × String)) :
    host.addSources (first ++ second) = (host.addSources first).addSources second :=
  List.foldl_append

theorem registry_addSources_congr {other : Host} (h : host.registry = other.registry)
    (entries : List (String × String)) :
    (host.addSources entries).registry = (other.addSources entries).registry := by
  induction entries generalizing host other with
  | nil => exact h
  | cons entry entries ih =>
    obtain ⟨hs, hn⟩ := Prod.mk.inj h
    exact ih (by simp only [registry, Host.addSource, hs, hn])

theorem registry_addSources_forget (host : Host) (entries : List (String × String)) :
    (host.forgetDirectories.addSources entries).registry = (host.addSources entries).registry := by
  have h : host.forgetDirectories.registry = host.registry := rfl
  exact registry_addSources_congr h entries

theorem InStep.addSources (h : host.InStep) (entries : List (String × String)) :
    (host.addSources entries).InStep := by
  induction entries generalizing host with
  | nil => exact h
  | cons entry entries ih => exact ih (h.addSource entry.1 entry.2)

theorem exists_addSources_eq (host : Host) (entries : List (String × String)) :
    ∃ sources names, host.addSources entries =
      { host with sources := sources, sourceNames := names } := by
  induction entries generalizing host with
  | nil => exact ⟨host.sources, host.sourceNames, rfl⟩
  | cons entry entries ih =>
    obtain ⟨sources, names, h⟩ := ih (host.addSource entry.1 entry.2)
    exact ⟨sources, names, h⟩

/-- Nothing but the sources is changed: the map has the last text of each name, and the order has
each name where it was first given. -/
theorem InStep.addSources_eq (h : host.InStep) (entries : List (String × String)) :
    host.addSources entries =
      { host with
        sources := host.sources.putAll entries
        sourceNames := addNames host.sourceNames (entries.map Prod.fst) } := by
  induction entries generalizing host with
  | nil => rfl
  | cons entry entries ih =>
    have hrest := ih (h.addSource entry.1 entry.2)
    rw [h.sourceNames_addSource, ← addNames_append] at hrest
    exact hrest

end Host

/-- The names of entries in the order in which they first stand there, each with its last text. -/
def latest (entries : List (String × String)) : List (String × String) :=
  (addNames [] (entries.map Prod.fst)).filterMap fun name =>
    (entries.reverse.lookup name).map (name, ·)

theorem names_latest (entries : List (String × String)) :
    (latest entries).map Prod.fst = addNames [] (entries.map Prod.fst) := by
  rw [latest, List.map_filterMap]
  refine (List.filterMap_congr fun name hn => ?_).trans List.filterMap_some
  have hm : name ∈ entries.reverse.map Prod.fst := by
    simpa [List.map_reverse] using mem_addNames.1 hn
  cases hl : entries.reverse.lookup name with
  | some text => rfl
  | none => exact (lookup_eq_none_iff_not_mem.1 hl hm).elim

theorem nodup_latest (entries : List (String × String)) :
    ((latest entries).map Prod.fst).Nodup := by
  rw [names_latest]
  exact nodup_addNames List.nodup_nil

/-- The latest of entries has for each name what was last given. -/
theorem lookup_latest (entries : List (String × String)) (name : String) :
    (latest entries).lookup name = entries.reverse.lookup name := by
  refine Option.ext fun text => ?_
  rw [lookup_eq_some_iff_mem (nodup_latest entries), latest, List.mem_filterMap]
  constructor
  · rintro ⟨other, -, ho⟩
    obtain ⟨_, hl, he⟩ := Option.map_eq_some_iff.1 ho
    obtain ⟨rfl, rfl⟩ := Prod.mk.inj he
    exact hl
  · intro hl
    refine ⟨name, mem_addNames.2 (.inr ?_), by rw [hl]; rfl⟩
    by_contra hn
    rw [← List.mem_reverse, ← List.map_reverse, ← lookup_eq_none_iff_not_mem] at hn
    simp [hn] at hl

theorem ofList_latest (entries : List (String × String)) :
    NameMap.ofList (latest entries) = NameMap.ofList entries := by
  refine NameMap.eq_of_get? fun name => ?_
  rw [NameMap.ofList_eq_putAll, NameMap.ofList_eq_putAll, NameMap.get?_putAll, NameMap.get?_putAll,
    lookup_reverse (nodup_latest entries), lookup_latest]

/-- On a host without sources, registering entries comes to registering the latest of them. -/
theorem Host.registry_addSources_latest {host : Host} (hs : host.sources = .empty)
    (hn : host.sourceNames = []) (entries : List (String × String)) :
    (host.addSources (latest entries)).registry = (host.addSources entries).registry := by
  have hnames : addNames [] (addNames [] (entries.map Prod.fst)) =
      addNames [] (entries.map Prod.fst) :=
    addNames_of_nodup (nodup_addNames List.nodup_nil)
  have h := Host.inStep_of_empty hs hn
  rw [h.addSources_eq, h.addSources_eq, registry, registry, hs, hn, names_latest, hnames,
    ← NameMap.ofList_eq_putAll, ofList_latest]
  rfl

/-- The name and the text of a source that is no file. -/
def Descriptor.entry? : Descriptor → Option (String × String)
  | file _ => none
  | string name contents => some (name, contents)

/-- The string sources of a request. -/
def Request.texts (request : Request) : List (String × String) :=
  request.sources.filterMap Descriptor.entry?

theorem Request.register_of_file {request : Request} {host : Host} (h : host.readsFrom = .file) :
    request.register host = host := by
  unfold register
  rw [h]

theorem Request.register_of_string {request : Request} {host : Host}
    (h : host.readsFrom = .string) : request.register host = host.addSources request.texts := by
  unfold register texts
  rw [h]
  clear h
  induction request.sources generalizing host with
  | nil => rfl
  | cons source rest ih =>
    cases source with
    | file name => exact ih
    | string name contents => exact ih

end ScriptHost
