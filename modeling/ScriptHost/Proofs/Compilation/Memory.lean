import ScriptHost.Compilation.Entry
import ScriptHost.Proofs.Compilation.Phases
import ScriptHost.Proofs.Host.Registration
import ScriptHost.Proofs.Host.Writing

/-! Runs in memory without analysis: such a run never fails but for its request, its program depends
on the sources that are registered by then, and its outputs are put over those of the host. -/

namespace ScriptHost

variable {request other : Request} {host second : Host} {disk : Disk} {names earlier : List String}

theorem firstRepeated?_of_nodup (h : (earlier ++ names).Nodup) :
    firstRepeated? earlier names = none := by
  induction names generalizing earlier with
  | nil => rfl
  | cons name names ih =>
    have hn : name ∉ earlier := fun hm =>
      (List.nodup_append.1 h).2.2 name hm name List.mem_cons_self rfl
    rw [firstRepeated?, if_neg hn]
    exact ih (by simpa using h)

namespace Host

/-- A host that reads nothing but strings, and writes strings. -/
structure InMemory (host : Host) : Prop where
  reads : host.read = .strings false
  writes : host.write = .string

theorem InMemory.readsFrom (h : host.InMemory) : host.readsFrom = .string := by
  rw [Host.readsFrom, h.reads]

theorem InMemory.served (h : host.InMemory) : host.served = host.sources.size + 3 := by
  rw [Host.served, h.reads]

theorem inMemory_memoryHost (configuration : Configuration) :
    (Engine.memoryHost configuration).InMemory := ⟨rfl, rfl⟩

theorem currentDirectory_of_string (h : host.readsFrom = .string) (disk : Disk) :
    host.currentDirectory disk = (.ok "", host) := by
  rw [currentDirectory, h]

theorem readSource_congr (hr : host.read = second.read)
    (hs : host.sources = second.sources)
    (hl : host.defaultLibrary = second.defaultLibrary) (disk : Disk) :
    host.readSource disk = second.readSource disk := by
  funext name
  have hlibrary : host.isDefaultLibrary name = second.isDefaultLibrary name := by
    rw [isDefaultLibrary, isDefaultLibrary, hl]
  rw [readSource, readSource, hr, hlibrary, hs]

end Host

theorem Host.InMemory.enter (h : host.InMemory) (request : Request) (disk : Disk) :
    (request.enter host disk).InMemory := by
  obtain ⟨_, _, _, he⟩ := exists_enter_eq request host disk
  rw [he]
  exact ⟨h.reads, h.writes⟩

theorem defaultLibrary_enter (request : Request) (host : Host) (disk : Disk) :
    (request.enter host disk).defaultLibrary = host.defaultLibrary := by
  obtain ⟨_, _, _, he⟩ := exists_enter_eq request host disk
  rw [he]
  rfl

namespace Request

/-- The run of a request in memory has nothing to complain of but repeated names. -/
theorem fault?_in_memory (h : host.InMemory) (hn : (request.sources.map Descriptor.name).Nodup) :
    request.fault? host = none := by
  rw [fault?, firstRepeated?_of_nodup (by simpa using hn), h.readsFrom]

theorem enter_in_memory (request : Request) (h : host.InMemory) (disk : Disk) :
    request.enter host disk = host.forgetDirectories.addSources request.texts := by
  have hs : host.forgetDirectories.readsFrom = .string := h.readsFrom
  rw [enter, Host.currentDirectory_of_string hs, register_of_string hs]

theorem registry_enter (request : Request) (h : host.InMemory) (disk : Disk) :
    (request.enter host disk).registry = (host.addSources request.texts).registry := by
  rw [enter_in_memory request h]
  exact host.registry_addSources_forget request.texts

/-- The options of a run without analysis. -/
def options (request : Request) (host : Host) (disk : Disk) : Options :=
  (request.commandLine Engine.verbatim host disk).options

/-- The closure that a run without analysis builds its program from. -/
def closure (request : Request) (host : Host) (disk : Disk) : Closure :=
  let line := request.commandLine Engine.verbatim host disk
  let entered := request.enter host disk
  (Closure.ofRoots entered.served (request.roots entered line) line.options).value
    (entered.answers disk)

/-- The program of a run holds all that its roots lead to, if the host tells names apart by their
case. -/
theorem sound_closure (request : Request) (host : Host) (hc : host.caseSensitive = true)
    (disk : Disk) :
    let line := request.commandLine Engine.verbatim host disk
    let entered := request.enter host disk
    let roots := request.roots entered line
    let closure := request.closure host disk
    Closure.Sound (entered.answers disk) line.options roots [] closure.seen closure ∧
      ∀ name, name ∈ closure.seen ↔ Reached (entered.answers disk) line.options roots name := by
  have hentered : (request.enter host disk).caseSensitive = true := by
    rw [Host.caseSensitive, platform_enter]
    exact hc
  exact sound_closure_of_caseSensitive hentered _ _ _

theorem built_verbatim (request : Request) (host : Host) (disk : Disk) :
    Engine.verbatim.built request host disk =
      ⟨(request.closure host disk).program (request.options host disk), request.enter host disk,
        disk⟩ :=
  serve_build_verbatim _ _ _ _ _

theorem sources_built_verbatim (request : Request) (host : Host) (disk : Disk) :
    (Engine.verbatim.built request host disk).answer.sources =
      (request.closure host disk).sources := by
  rw [built_verbatim]
  rfl

theorem early_verbatim (request : Request) (host : Host) (disk : Disk) :
    Engine.verbatim.early request host disk =
      (request.commandLine Engine.verbatim host disk).errors ++
        (request.closure host disk).faults := by
  rw [Engine.early, built_verbatim]
  rfl

/-- Whether early diagnostics end a run without analysis. -/
abbrev EndsEarly (request : Request) (host : Host) (disk : Disk) : Prop :=
  request.configuration.fullTypeCheck = true ∧ Engine.verbatim.early request host disk ≠ []

/-- The outputs that a run without analysis writes: none when early diagnostics end it. -/
def targets (request : Request) (host : Host) (disk : Disk) : List Target :=
  if request.configuration.fullTypeCheck = true ∧ Engine.verbatim.early request host disk ≠ [] then
    []
  else Target.ofProgram (request.options host disk) (request.closure host disk).sources

/-- What a run without analysis writes, in its order. -/
def writes (request : Request) (host : Host) (disk : Disk) : List (String × String) :=
  (request.targets host disk).flatMap
    (Target.writes host.newLine (request.options host disk).sourceMap)

/-- The source maps of a run without analysis. -/
def maps (request : Request) (host : Host) (disk : Disk) : List SourceMap :=
  Target.maps (request.options host disk).sourceMap (request.targets host disk)

/-- The emission of a run in memory that is not ended early. -/
theorem serve_emitProgram_in_memory (h : host.InMemory)
    (ht : request.targets host disk =
      Target.ofProgram (request.options host disk) (request.closure host disk).sources) :
    (request.enter host disk).serve
        (emitProgram (request.options host disk) (request.closure host disk).sources) disk =
      ⟨⟨[], request.maps host disk⟩,
        (request.enter host disk).keepAll (request.writes host disk), disk⟩ := by
  have hs : (request.enter host disk).write = .string := by
    rw [write_enter]
    exact h.writes
  rw [maps, writes, ht, ← newLine_enter request host disk]
  exact Host.serve_emitAll_of_string hs _

theorem outputs_keepAll_enter (request : Request) (host : Host) (disk : Disk)
    (writes : List (String × String)) :
    ((request.enter host disk).keepAll writes).outputs = host.outputs.putAll writes := by
  obtain ⟨forwarded, hkeep⟩ := Host.exists_keepAll_eq (request.enter host disk) writes
  rw [hkeep, outputs_enter]

theorem writes_of_ends_early (he : request.EndsEarly host disk) :
    request.writes host disk = [] ∧ request.maps host disk = [] := by
  have ht : request.targets host disk = [] := if_pos he
  refine ⟨by rw [writes, ht, List.flatMap_nil], ?_⟩
  rw [maps, ht]
  cases (request.options host disk).sourceMap <;> rfl

theorem finish_verbatim {directory : String} (hf : request.fault? host = none)
    (hd : (host.forgetDirectories.currentDirectory disk).1 = .ok directory) :
    Engine.verbatim.run request host disk =
      Engine.finish request (request.commandLine Engine.verbatim host disk).errors
        ((request.closure host disk).program (request.options host disk)) (request.enter host disk)
        disk := by
  have hfinish : Engine.verbatim.run request host disk = _ := Engine.run_eq_finish hf hd
  rwa [built_verbatim] at hfinish

/-- The end of a run without analysis that early diagnostics end. -/
theorem run_of_ends_early {directory : String} (hf : request.fault? host = none)
    (hd : (host.forgetDirectories.currentDirectory disk).1 = .ok directory)
    (he : request.EndsEarly host disk) :
    let early := Engine.verbatim.early request host disk
    Engine.verbatim.run request host disk =
      { result := .ok ⟨host.outputs, [], early.map Diagnostic.render⟩
        reports := Reports.forward request.callback {} early
        phases := [.program], host := request.enter host disk, disk := disk } := by
  intro early
  have hearly : (request.commandLine Engine.verbatim host disk).errors ++
      ((request.closure host disk).program (request.options host disk)).early = early :=
    (early_verbatim request host disk).symm
  rw [finish_verbatim hf hd, Engine.finish_of_early request he.1 (hearly ▸ he.2), hearly,
    outputs_enter]

/-- The end of any other run without analysis: it reports its early diagnostics and what is wrong
with its emission. -/
theorem run_of_not_ends_early {directory : String} (hf : request.fault? host = none)
    (hd : (host.forgetDirectories.currentDirectory disk).1 = .ok directory)
    (he : ¬ request.EndsEarly host disk) :
    let emitted := (request.enter host disk).serve
      (emitProgram (request.options host disk) (request.closure host disk).sources) disk
    let stream := Engine.verbatim.early request host disk ++ emitted.answer.diagnostics
    Engine.verbatim.run request host disk =
      { result := .ok ⟨emitted.host.outputs, emitted.answer.sourceMaps,
          stream.map Diagnostic.render⟩
        reports := Reports.forward request.callback {} stream
        phases := .program ::
          (if request.configuration.fullTypeCheck then [.semantic] else []) ++ [.emission]
        host := emitted.host, disk := emitted.disk } := by
  intro emitted stream
  have hearly : (request.commandLine Engine.verbatim host disk).errors ++
      ((request.closure host disk).program (request.options host disk)).early =
        Engine.verbatim.early request host disk := (early_verbatim request host disk).symm
  rw [finish_verbatim hf hd, Engine.finish_of_not_early request (hearly ▸ he), hearly]
  simp only [Closure.program, ite_self, List.append_nil]
  rfl

/-- The end of a run in memory without analysis: its outputs are put over those of the host, and its
early diagnostics are all that it reports. -/
theorem run_in_memory (h : host.InMemory) (hf : request.fault? host = none) (disk : Disk) :
    let outcome := Engine.verbatim.run request host disk
    outcome.result = .ok ⟨host.outputs.putAll (request.writes host disk), request.maps host disk,
        (Engine.verbatim.early request host disk).map Diagnostic.render⟩ ∧
      outcome.host = (request.enter host disk).keepAll (request.writes host disk) ∧
      outcome.disk = disk := by
  intro outcome
  have hd : (host.forgetDirectories.currentDirectory disk).1 = .ok "" := by
    have hs : host.forgetDirectories.readsFrom = .string := h.readsFrom
    rw [Host.currentDirectory_of_string hs]
  by_cases he : request.EndsEarly host disk
  · have hrun : outcome = _ := run_of_ends_early hf hd he
    obtain ⟨hw, hm⟩ := writes_of_ends_early he
    rw [hrun, hw, hm]
    exact ⟨rfl, rfl, rfl⟩
  · have hrun : outcome = _ := run_of_not_ends_early hf hd he
    have hemit := serve_emitProgram_in_memory h (if_neg he)
    simp only [hemit, outputs_keepAll_enter, List.append_nil] at hrun
    rw [hrun]
    exact ⟨rfl, rfl, rfl⟩

/-- A redirect has received all that the run writes. -/
theorem forwarded_run {redirect : String} (h : host.InMemory) (hf : request.fault? host = none)
    (hr : host.redirect = some redirect) (hn : host.forwarded = []) (disk : Disk) :
    (Engine.verbatim.run request host disk).host.forwarded.map Forwarded.data =
      (request.writes host disk).map Prod.snd := by
  obtain ⟨-, hhost, -⟩ := run_in_memory h hf disk
  have hentered : (request.enter host disk).redirect = some redirect ∧
      (request.enter host disk).forwarded = [] := by
    obtain ⟨_, _, _, he⟩ := exists_enter_eq request host disk
    rw [he]
    exact ⟨hr, hn⟩
  rw [hhost, Host.forwarded_keepAll hentered.1, hentered.2, List.nil_append, List.map_map]
  rfl

/-- The host after such a run has its sources and outputs. -/
theorem exists_host_of_run (h : host.InMemory) (hf : request.fault? host = none)
    (disk : Disk) :
    ∃ forwarded, (Engine.verbatim.run request host disk).host =
      { host.forgetDirectories.addSources request.texts with
        outputs := host.outputs.putAll (request.writes host disk), forwarded := forwarded } := by
  obtain ⟨-, hhost, -⟩ := run_in_memory h hf disk
  obtain ⟨forwarded, hkeep⟩ :=
    Host.exists_keepAll_eq (request.enter host disk) (request.writes host disk)
  refine ⟨forwarded, hhost.trans (hkeep.trans ?_)⟩
  rw [outputs_enter, enter_in_memory request h]

end Request

end ScriptHost
