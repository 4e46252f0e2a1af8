import ScriptHost.Proofs.Compilation.Memory

/-! Runs that are refused before a program is built: when that happens, with which error, and that
nothing else has happened by then. -/

namespace ScriptHost

variable {engine : Engine} {request : Request} {host : Host} {disk : Disk} {error : InputError}
  {names earlier : List String} {name : String}

/-- Why a run is refused: a name is given twice, a string is given to a host that reads files, or
such a host does not know its directory, and the directory is gone. -/
inductive Request.Refused (request : Request) (host : Host) (disk : Disk) : CompileError → Prop where
  | repeated {before name after}
      (names : request.sources.map Descriptor.name = before ++ name :: after)
      (distinct : before.Nodup) (again : name ∈ before) :
      Refused request host disk (.invalidInput (.duplicateName name))
  | misplaced {before source after} (distinct : (request.sources.map Descriptor.name).Nodup)
      (reads : host.readsFrom = .file) (sources : request.sources = before ++ source :: after)
      (files : ∀ other ∈ before, other.medium = .file) (string : source.medium = .string) :
      Refused request host disk (.invalidInput (.stringForFileHost source.name))
  | lost {cause} (distinct : (request.sources.map Descriptor.name).Nodup)
      (reads : host.readsFrom = .file) (files : ∀ source ∈ request.sources, source.medium = .file)
      (unknown : host.directory = none) (gone : disk.currentDirectory = .error cause) :
      Refused request host disk (.host (.currentDirectory cause))

theorem firstRepeated?_eq_some_iff (h : earlier.Nodup) :
    firstRepeated? earlier names = some name ↔
      ∃ before after, names = before ++ name :: after ∧ (earlier ++ before).Nodup ∧
        name ∈ earlier ++ before := by
  induction names generalizing earlier with
  | nil => simp [firstRepeated?]
  | cons first names ih =>
    by_cases hf : first ∈ earlier
    · rw [firstRepeated?, if_pos hf]
      constructor
      · intro hs
        obtain rfl := Option.some.inj hs
        exact ⟨[], names, rfl, by simpa using h, by simpa using hf⟩
      · rintro ⟨before, after, hn, hd, -⟩
        cases before with
        | nil => rw [(List.cons.inj hn).1]
        | cons other before =>
          obtain rfl := (List.cons.inj hn).1
          exact ((List.nodup_append.1 hd).2.2 _ hf _ List.mem_cons_self rfl).elim
    · rw [firstRepeated?, if_neg hf, ih (nodup_concat h hf)]
      constructor
      · rintro ⟨before, after, rfl, hd, hm⟩
        exact ⟨first :: before, after, rfl, by simpa using hd, by simpa using hm⟩
      · rintro ⟨before, after, hn, hd, hm⟩
        cases before with
        | nil =>
          obtain rfl := (List.cons.inj hn).1
          exact (hf (by simpa using hm)).elim
        | cons other before =>
          obtain ⟨rfl, rfl⟩ := List.cons.inj hn
          exact ⟨before, after, rfl, by simpa using hd, by simpa using hm⟩

theorem nodup_of_firstRepeated? (h : earlier.Nodup) (hn : firstRepeated? earlier names = none) :
    (earlier ++ names).Nodup := by
  induction names generalizing earlier with
  | nil => simpa using h
  | cons first names ih =>
    rw [firstRepeated?] at hn
    split at hn
    · simp at hn
    · rename_i hf
      simpa using ih (nodup_concat h hf) hn

theorem medium_eq_file_iff {source : Descriptor} :
    source.medium = .file ↔ source.medium ≠ .string := by
  cases source <;> simp [Descriptor.medium]

namespace Request

theorem fault?_eq_none_iff :
    request.fault? host = none ↔ (request.sources.map Descriptor.name).Nodup ∧
      (host.readsFrom = .file → ∀ source ∈ request.sources, source.medium = .file) := by
  unfold fault?
  cases hr : firstRepeated? [] (request.sources.map Descriptor.name) with
  | some name =>
    obtain ⟨before, after, hn, -, hm⟩ := (firstRepeated?_eq_some_iff List.nodup_nil).1 hr
    have hd : ¬ (request.sources.map Descriptor.name).Nodup := by
      intro hd
      rw [hn] at hd
      exact (List.nodup_append.1 hd).2.2 _ hm _ List.mem_cons_self rfl
    simp [hd]
  | none =>
    have hd : (request.sources.map Descriptor.name).Nodup := nodup_of_firstRepeated? List.nodup_nil hr
    simp only [hd, true_and, medium_eq_file_iff]
    cases host.readsFrom with
    | string => simp
    | file =>
      cases hs : request.sources.find? (·.medium == .string) with
      | none => simpa using hs
      | some source =>
        have hm := List.mem_of_find?_eq_some hs
        have hp := List.find?_some hs
        simpa using ⟨source, hm, by simpa using hp⟩

theorem fault?_eq_some_iff :
    request.fault? host = some error ↔ request.Refused host disk (.invalidInput error) := by
  constructor
  · intro h
    unfold fault? at h
    cases hr : firstRepeated? [] (request.sources.map Descriptor.name) with
    | some name =>
      obtain ⟨before, after, hn, hd, hm⟩ := (firstRepeated?_eq_some_iff List.nodup_nil).1 hr
      obtain rfl : InputError.duplicateName name = error := by simpa [hr] using h
      exact .repeated hn hd hm
    | none =>
      have hd := nodup_of_firstRepeated? List.nodup_nil hr
      cases hf : host.readsFrom with
      | string => simp [hr, hf] at h
      | file =>
        cases hs : request.sources.find? (·.medium == .string) with
        | none => simp [hr, hf, hs] at h
        | some source =>
          obtain rfl : InputError.stringForFileHost source.name = error := by
            simpa [hr, hf, hs] using h
          obtain ⟨hp, before, after, hl, hb⟩ := List.find?_eq_some_iff_append.1 hs
          refine .misplaced hd hf hl (fun other ho => ?_) (by simpa using hp)
          exact medium_eq_file_iff.2 (by simpa using hb other ho)
  · intro h
    cases h with
    | repeated hn hd hm =>
      have hr := (firstRepeated?_eq_some_iff List.nodup_nil).2 ⟨_, _, hn, hd, hm⟩
      rw [fault?, hr]
    | misplaced hd hf hl hb hs =>
      have hr : firstRepeated? [] (request.sources.map Descriptor.name) = none :=
        firstRepeated?_of_nodup hd
      have hfind : request.sources.find? (·.medium == .string) = some _ :=
        List.find?_eq_some_iff_append.2 ⟨by simpa using hs, _, _, hl, fun other ho => by
          simp [hb other ho]⟩
      simp only [fault?, hr, hf, hfind]

end Request

/-- Only a host that reads files asks for its directory, and only when it does not know it. -/
theorem currentDirectory_eq_error_iff {lost : HostError} {after : Host} :
    host.currentDirectory disk = (.error lost, after) ↔
      host.readsFrom = .file ∧ host.directory = none ∧ after = host ∧
        ∃ cause, disk.currentDirectory = .error cause ∧ lost = .currentDirectory cause := by
  unfold Host.currentDirectory
  cases host.readsFrom with
  | string => simp
  | file =>
    cases host.directory with
    | some directory => simp
    | none =>
      cases disk.currentDirectory with
      | ok directory => simp
      | error cause =>
        simp only [Prod.mk.injEq, Except.error.injEq, true_and, exists_eq_left']
        exact ⟨fun ⟨h, hh⟩ => ⟨hh.symm, h.symm⟩, fun ⟨hh, h⟩ => ⟨h.symm, hh.symm⟩⟩

variable {failure : CompileError}

/-- Some of the reasons for a refusal hold just when the run is refused for one of them. -/
theorem Request.exists_refused_iff :
    (∃ failure, request.Refused host disk failure) ↔
      ¬ (request.sources.map Descriptor.name).Nodup ∨
      (host.readsFrom = .file ∧ ∃ source ∈ request.sources, source.medium = .string) ∨
      (host.readsFrom = .file ∧ host.directory = none ∧
        ∃ cause, disk.currentDirectory = .error cause) := by
  constructor
  · rintro ⟨failure, h⟩
    cases h with
    | repeated hn hd hm =>
      refine .inl fun hall => ?_
      rw [hn] at hall
      exact (List.nodup_append.1 hall).2.2 _ hm _ List.mem_cons_self rfl
    | @misplaced before source after hd hr hl hb hs =>
      exact .inr (.inl ⟨hr, source, by simp [hl], hs⟩)
    | lost hd hr hs hu hg => exact .inr (.inr ⟨hr, hu, _, hg⟩)
  · intro h
    cases hf : request.fault? host with
    | some error => exact ⟨_, fault?_eq_some_iff.1 hf⟩
    | none =>
      obtain ⟨hd, hs⟩ := fault?_eq_none_iff.1 hf
      rcases h with hn | ⟨hr, source, hm, hstring⟩ | ⟨hr, hu, cause, hg⟩
      · exact (hn hd).elim
      · exact (medium_eq_file_iff.1 (hs hr source hm) hstring).elim
      · exact ⟨_, .lost hd hr (hs hr) hu hg⟩

namespace Engine

/-- A run that is refused ends where it began, whatever its engine and its callback are. -/
theorem run_of_refused (h : request.Refused host disk failure) :
    ∃ known, ∀ (engine : Engine) (callback : Option Callback),
      engine.run (request.answeredBy callback) host disk =
        { result := .error failure, host := { host with known := known }, disk := disk } := by
  cases failure with
  | discover => cases h
  | invalidInput error =>
    have hf : request.fault? host = some error := Request.fault?_eq_some_iff.2 h
    refine ⟨host.known, fun engine callback => ?_⟩
    have hf' : (request.answeredBy callback).fault? host = some error := hf
    rw [run, hf']
  | host lost =>
    cases h with
    | @lost cause hd hr hs hu hg =>
      have hf : request.fault? host = none := Request.fault?_eq_none_iff.2 ⟨hd, fun _ => hs⟩
      have hlost : host.forgetDirectories.currentDirectory disk =
          (.error (.currentDirectory cause), host.forgetDirectories) :=
        currentDirectory_eq_error_iff.2 ⟨hr, hu, rfl, cause, hg, rfl⟩
      refine ⟨[], fun engine callback => ?_⟩
      have hf' : (request.answeredBy callback).fault? host = none := hf
      simp only [run, hf', hlost]
      rfl

theorem exists_run_eq_of_refused (engine : Engine) (h : request.Refused host disk failure) :
    ∃ known, engine.run request host disk =
      { result := .error failure, host := { host with known := known }, disk := disk } := by
  obtain ⟨known, hrun⟩ := run_of_refused h
  exact ⟨known, hrun engine request.callback⟩

/-- Nothing that happens after the sources are registered ends a run without a result. -/
theorem ok_of_not_refused (engine : Engine) (h : ∀ failure, ¬ request.Refused host disk failure) :
    ∃ compilation, (engine.run request host disk).result = .ok compilation := by
  have hf : request.fault? host = none := by
    cases hf : request.fault? host with
    | none => rfl
    | some error => exact (h _ (Request.fault?_eq_some_iff.1 hf)).elim
  obtain ⟨directory, hd⟩ :
      ∃ directory, (host.forgetDirectories.currentDirectory disk).1 = .ok directory := by
    cases hd : host.forgetDirectories.currentDirectory disk with
    | mk answer entered =>
      cases answer with
      | ok directory => exact ⟨directory, rfl⟩
      | error lost =>
        obtain ⟨hr, hu, -, cause, hg, -⟩ := currentDirectory_eq_error_iff.1 hd
        obtain ⟨hn, hs⟩ := Request.fault?_eq_none_iff.1 hf
        exact (h _ (.lost hn hr (hs hr) hu hg)).elim
  rw [run_eq_finish hf hd]
  by_cases he : request.configuration.fullTypeCheck = true ∧
      (request.commandLine engine host disk).errors ++
        (engine.built request host disk).answer.early ≠ []
  · exact ⟨_, congrArg Outcome.result (finish_of_early request he.1 he.2)⟩
  · exact ⟨_, congrArg Outcome.result (finish_of_not_early request he)⟩

theorem result_eq_error_iff :
    (engine.run request host disk).result = .error failure ↔ request.Refused host disk failure := by
  constructor
  · intro h
    by_cases hr : ∃ reason, request.Refused host disk reason
    · obtain ⟨reason, hr⟩ := hr
      obtain ⟨known, hrun⟩ := exists_run_eq_of_refused engine hr
      have he : (engine.run request host disk).result = .error reason := congrArg Outcome.result hrun
      exact Except.error.inj (he.symm.trans h) ▸ hr
    · obtain ⟨compilation, hc⟩ := ok_of_not_refused engine (not_exists.1 hr)
      simp [hc] at h
  · intro h
    obtain ⟨known, hrun⟩ := exists_run_eq_of_refused engine h
    exact congrArg Outcome.result hrun

end Engine

/-- A run gives an error just when a name is given twice, or its host reads files and is given a
string or has no directory to start from; which error it is depends on the first of these. Then
nothing has happened: the host is the same but for what it knew of directories, the disk is the
same, nothing has been reported, and neither the engine nor the callback makes a difference. -/
theorem run_refused_iff (engine : Engine) (request : Request) (host : Host) (disk : Disk) :
    let outcome := engine.run request host disk
    (∀ failure, outcome.result = .error failure ↔ request.Refused host disk failure) ∧
    ((∃ failure, outcome.result = .error failure) ↔
      ¬ (request.sources.map Descriptor.name).Nodup ∨
      (host.readsFrom = .file ∧ ∃ source ∈ request.sources, source.medium = .string) ∨
      (host.readsFrom = .file ∧ host.directory = none ∧
        ∃ cause, disk.currentDirectory = .error cause)) ∧
    ∀ failure, outcome.result = .error failure →
      (∃ known, outcome.host = { host with known := known }) ∧ outcome.disk = disk ∧
      outcome.phases = [] ∧ outcome.reports = {} ∧
      ∀ (other : Engine) (callback : Option Callback),
        other.run (request.answeredBy callback) host disk = outcome := by
  intro outcome
  have hall (failure) : outcome.result = .error failure ↔ request.Refused host disk failure :=
    Engine.result_eq_error_iff
  refine ⟨hall, (exists_congr hall).trans Request.exists_refused_iff, fun failure h => ?_⟩
  obtain ⟨known, hrun⟩ := Engine.run_of_refused ((hall failure).1 h)
  have hout : outcome =
      { result := .error failure, host := { host with known := known }, disk := disk } :=
    hrun engine request.callback
  refine ⟨⟨known, ?_⟩, ?_, ?_, ?_, fun other callback => (hrun other callback).trans hout.symm⟩
  · rw [hout]
  · rw [hout]
  · rw [hout]
  · rw [hout]

/-- In a directory that has been removed, a host with an output and a directory that it knows. -/
theorem run_refused_in_removed_directory :
    let disk : Disk := ⟨.directory [], ⟨[], 1⟩⟩
    let host : Host := {
      configuration := {}, outputs := NameMap.empty.insert "old.js" "var old;\n", known := ["/out"] }
    let request : Request := {
      sources := [.file "a.ts"], arguments := .tokens ["--bad"]
      callback := some fun _ _ _ => .suppress }
    let outcome := Engine.verbatim.run request host disk
    outcome.result = .error (.host (.currentDirectory .notFound)) ∧
      outcome.host.outputs = host.outputs ∧ outcome.disk = disk ∧ outcome.programs = 0 ∧
      outcome.reports = {} ∧
      ∃ compilation, (Engine.verbatim.run request { host with directory := some "/" }
        disk).result = .ok compilation := by
  intro disk host request outcome
  obtain ⟨hrefused, -, hkept⟩ := run_refused_iff Engine.verbatim request host disk
  have hlost : outcome.result = .error (.host (.currentDirectory .notFound)) :=
    (hrefused _).2 (.lost (by decide) rfl (by decide) rfl rfl)
  obtain ⟨⟨known, hhost⟩, hdisk, hphases, hreports, -⟩ := hkept _ hlost
  obtain ⟨-, hiff, -⟩ :=
    run_refused_iff Engine.verbatim request { host with directory := some "/" } disk
  refine ⟨hlost, by rw [hhost], hdisk, by rw [Outcome.programs, hphases]; rfl, hreports, ?_⟩
  cases hr : (Engine.verbatim.run request { host with directory := some "/" } disk).result with
  | ok compilation => exact ⟨compilation, rfl⟩
  | error failure =>
    rcases hiff.1 ⟨failure, hr⟩ with hn | ⟨-, source, hm, hs⟩ | ⟨-, hu, -⟩
    · exact (hn (by decide)).elim
    · obtain rfl := List.mem_singleton.1 hm
      simp [Descriptor.medium] at hs
    · simp at hu

end ScriptHost
