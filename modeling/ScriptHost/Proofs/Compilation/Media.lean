import ScriptHost.Proofs.Compilation.Alike
import ScriptHost.Proofs.Emission
import ScriptHost.Proofs.Host.Recording
import ScriptHost.Proofs.Host.Sources

/-! Where outputs go makes no difference to a run as long as no write fails: on a host that keeps
them as strings it has the same result and the same reports. -/

namespace ScriptHost

variable {request : Request} {host : Host} {disk : Disk} {machine : Machine}

/-- The host with outputs that go elsewhere. -/
def Host.writing (host : Host) (medium : Medium) : Host := { host with write := medium }

/-- Where no request of a task fails, no attempt to write does. -/
theorem attempts_of_no_error {α : Type} {task : Task α}
    (h : ∀ call ∈ machine.calls task, call.error? = none) :
    ∀ attempt ∈ Host.server.attempts task (machine.host, machine.disk), attempt.failed = false := by
  induction task generalizing machine with
  | done value => simp [Server.attempts]
  | read name k ih => exact ih _ (List.forall_mem_cons.1 h).2
  | write name data mark k ih =>
    obtain ⟨hfirst, h⟩ := List.forall_mem_cons.1 h
    refine List.forall_mem_cons.2 ⟨?_, ih _ h⟩
    cases ha : (machine.host.writeFile machine.disk name data mark).answer with
    | ok => simp [Attempt.failed, Host.server, ha, Except.isOk, Except.toBool]
    | error error => simp [Call.error?, ha] at hfirst
  | currentDirectory k ih => exact ih _ (List.forall_mem_cons.1 h).2
  | query question k ih => exact ih _ (List.forall_mem_cons.1 h).2

/-- When no write fails, an emission has no diagnostics and all its source maps, and all that is
written is recorded. -/
theorem serve_emitAll_of_no_error {sourceMap : Bool} {targets : List Target}
    (h : ∀ call ∈ machine.calls (Target.emitAll sourceMap targets), call.error? = none) :
    let served := machine.host.serve (Target.emitAll sourceMap targets) machine.disk
    served.answer = ⟨[], Target.maps sourceMap targets⟩ ∧ served.host.outputs =
      machine.host.outputs.putAll
        (targets.flatMap (Target.writes machine.host.newLine sourceMap)) := by
  intro served
  let state := (machine.host, machine.disk)
  have hfailed := attempts_of_no_error h
  have hnone : ∀ attempt ∈ Host.server.attempts (Target.emitAll sourceMap targets) state,
      attempt.failed = true ↔ attempt.name ∈ (∅ : Set String) := by
    intro attempt ha
    simp [hfailed attempt ha]
  have hserved := Host.serve_server (Target.emitAll sourceMap targets) machine.host machine.disk
  have hdiagnostics : served.answer.diagnostics = [] := by
    have hd : (Host.server.serve (Target.emitAll sourceMap targets) state).1.diagnostics = _ :=
      Target.diagnostics_emitAll targets state
    rw [hserved] at hd
    refine hd.trans (List.flatMap_eq_nil_iff.2 fun attempt ha => ?_)
    have hf := hfailed attempt ha
    cases hanswer : attempt.answer with
    | ok => rfl
    | error error => simp [Attempt.failed, hanswer, Except.isOk, Except.toBool] at hf
  have hmaps : served.answer.sourceMaps = Target.maps sourceMap targets := by
    have hm := Target.sourceMaps_emitAll targets state hnone
    rw [hserved] at hm
    simpa using hm
  have houtputs := Host.records_server.outputs_serve
    (Target.only_emitAll targets sourceMap) state
  rw [hserved, filterMap_kept? (Target.ask_attempts_emitAll Host.records_server targets state)
    hnone] at houtputs
  have hline : Host.server.answer state .newLine = machine.host.newLine := rfl
  refine ⟨?_, by simpa [hline] using houtputs⟩
  rw [← hdiagnostics, ← hmaps]

theorem currentDirectory_writing (host : Host) (medium : Medium) (disk : Disk) :
    (host.writing medium).currentDirectory disk =
      ((host.currentDirectory disk).1, (host.currentDirectory disk).2.writing medium) := by
  have hreads : (host.writing medium).readsFrom = host.readsFrom := rfl
  have hknown : (host.writing medium).directory = host.directory := rfl
  unfold Host.currentDirectory
  rw [hreads, hknown]
  cases host.readsFrom with
  | string => rfl
  | file =>
    cases host.directory with
    | some directory => rfl
    | none => cases disk.currentDirectory <;> rfl

theorem addSources_writing (host : Host) (medium : Medium) (entries : List (String × String)) :
    (host.writing medium).addSources entries = (host.addSources entries).writing medium := by
  induction entries generalizing host with
  | nil => rfl
  | cons entry entries ih => exact ih (host.addSource entry.1 entry.2)

theorem register_writing (request : Request) (host : Host) (medium : Medium) :
    request.register (host.writing medium) = (request.register host).writing medium := by
  have hreads : (host.writing medium).readsFrom = host.readsFrom := rfl
  cases hr : host.readsFrom with
  | file => rw [Request.register_of_file hr, Request.register_of_file (hreads.trans hr)]
  | string =>
    rw [Request.register_of_string hr, Request.register_of_string (hreads.trans hr),
      addSources_writing]

theorem enter_writing (request : Request) (host : Host) (medium : Medium) (disk : Disk) :
    request.enter (host.writing medium) disk = (request.enter host disk).writing medium := by
  have hforget : (host.writing medium).forgetDirectories =
      host.forgetDirectories.writing medium := rfl
  rw [Request.enter, hforget, currentDirectory_writing, register_writing]
  rfl

namespace Request

theorem refused_writing_iff {medium : Medium} {failure : CompileError} :
    request.Refused (host.writing medium) disk failure ↔ request.Refused host disk failure := by
  constructor
  · intro h
    cases h with
    | repeated hn hd hm => exact .repeated hn hd hm
    | misplaced hd hr hs hf hm => exact .misplaced hd hr hs hf hm
    | lost hd hr hf hu hg => exact .lost hd hr hf hu hg
  · intro h
    cases h with
    | repeated hn hd hm => exact .repeated hn hd hm
    | misplaced hd hr hs hf hm => exact .misplaced hd hr hs hf hm
    | lost hd hr hf hu hg => exact .lost hd hr hf hu hg

/-- A run asks for the same wherever its outputs go. -/
theorem alike_writing (request : Request) (host : Host) (medium : Medium) (disk : Disk) :
    request.Alike request (host.writing medium) host disk := by
  have hread : (request.enter host disk).readSource disk =
      (request.enter (host.writing medium) disk).readSource disk := by
    rw [enter_writing]
    rfl
  have hserved : (request.enter host disk).served =
      (request.enter (host.writing medium) disk).served := by
    rw [enter_writing]
    rfl
  refine ⟨rfl, ?_, rfl, rfl⟩
  have hline : request.commandLine Engine.verbatim host disk =
      request.commandLine Engine.verbatim (host.writing medium) disk := rfl
  have hplatform : host.platform = (host.writing medium).platform := rfl
  rw [closure_of_readSource hplatform hline hserved hread, enter_writing]
  rfl

/-- A run whose writes do not fail records all that it writes, and reports its early diagnostics and
nothing else. -/
theorem run_of_no_error (h : ∀ failure, ¬ request.Refused host disk failure)
    (hw : ∀ call ∈ Machine.runCalls ⟨host, disk⟩ Engine.verbatim request, call.error? = none) :
    let outcome := Engine.verbatim.run request host disk
    let early := Engine.verbatim.early request host disk
    outcome.result = .ok ⟨host.outputs.putAll (request.writes host disk), request.maps host disk,
        early.map Diagnostic.render⟩ ∧
      outcome.reports = Reports.forward request.callback {} early := by
  intro outcome early
  obtain ⟨compilation, hc⟩ := Engine.ok_of_not_refused Engine.verbatim h
  obtain ⟨hf, directory, hd⟩ := Engine.enters_of_ok hc
  by_cases he : request.EndsEarly host disk
  · have hrun : outcome = _ := run_of_ends_early hf hd he
    obtain ⟨hwrites, hmaps⟩ := writes_of_ends_early he
    rw [hrun, hwrites, hmaps]
    exact ⟨rfl, rfl⟩
  · have ht : request.targets host disk =
        Target.ofProgram (request.options host disk) (request.closure host disk).sources := if_neg he
    have hcalls : ∀ call ∈ Machine.calls ⟨request.enter host disk, disk⟩
        (emitProgram (request.options host disk) (request.closure host disk).sources),
        call.error? = none := by
      intro call hcall
      refine hw call (Machine.calls_emit_subset ⟨host, disk⟩ Engine.verbatim h he ?_)
      rw [built_verbatim]
      exact hcall
    obtain ⟨hanswer, houtputs⟩ := serve_emitAll_of_no_error hcalls
    have hrun : outcome = _ := run_of_not_ends_early hf hd he
    rw [emitProgram, hanswer, houtputs, outputs_enter, newLine_enter, List.append_nil] at hrun
    rw [hrun, writes, maps, ht]
    exact ⟨rfl, rfl⟩

end Request

/-- A run on a host that keeps its outputs as strings has no write that fails, and leaves the disk
as it is. -/
theorem calls_writing_string (request : Request) (host : Host) (disk : Disk) (engine : Engine) :
    ∀ call ∈ Machine.runCalls ⟨host.writing .string, disk⟩ engine request,
      call.toDisk = false ∧ call.error? = none := by
  intro call hc
  have hsetUp := Machine.setUp_runCalls ⟨host.writing .string, disk⟩ engine request call hc
  have hwrite : call.before.host.write = .string := congrArg SetUp.write hsetUp
  have hdisk : call.toDisk = false := by
    unfold Call.toDisk
    split <;> simp [hwrite]
  refine ⟨hdisk, ?_⟩
  cases he : call.error? with
  | none => rfl
  | some error => simp [(call.after_of_error he).1] at hdisk

theorem foldl_diskAfter {calls : List Call} (h : ∀ call ∈ calls, call.toDisk = false) (disk : Disk) :
    calls.foldl Call.diskAfter disk = disk := by
  induction calls with
  | nil => rfl
  | cons call calls ih =>
    obtain ⟨hfirst, h⟩ := List.forall_mem_cons.1 h
    have hsame : Call.diskAfter disk call = disk := by simp [Call.diskAfter, hfirst]
    rw [List.foldl_cons, hsame]
    exact ih h

/-- A run without analysis whose writes do not fail has the same result and reports when its outputs
are kept as strings, and then it leaves the disk as it is. -/
theorem run_writing_string
    (hw : ∀ call ∈ Machine.runCalls ⟨host, disk⟩ Engine.verbatim request, call.error? = none) :
    let written := Engine.verbatim.run request host disk
    let kept := Engine.verbatim.run request (host.writing .string) disk
    kept.result = written.result ∧ kept.reports = written.reports ∧ kept.disk = disk := by
  intro written kept
  have hcalls := calls_writing_string request host disk Engine.verbatim
  have hdisk : kept.disk = disk := by
    let operation : Operation := .compile Engine.verbatim request
    have hperform : (operation.perform ⟨host.writing .string, disk⟩).disk = _ :=
      Operation.disk_perform _ rfl
    exact hperform.trans (foldl_diskAfter (fun call hc => (hcalls call hc).1) disk)
  suffices h : kept.result = written.result ∧ kept.reports = written.reports from
    ⟨h.1, h.2, hdisk⟩
  by_cases hr : ∃ failure, request.Refused host disk failure
  · obtain ⟨failure, hr⟩ := hr
    have hagain : request.Refused (host.writing .string) disk failure :=
      Request.refused_writing_iff.2 hr
    obtain ⟨_, hwritten⟩ := Engine.verbatim.exists_run_eq_of_refused hr
    obtain ⟨_, hkept⟩ := Engine.verbatim.exists_run_eq_of_refused hagain
    simp only [written, kept, hwritten, hkept, and_self]
  · have hnone := not_exists.1 hr
    have hsame := request.alike_writing host .string disk
    obtain ⟨hfirst, hreports⟩ := Request.run_of_no_error hnone hw
    obtain ⟨hsecond, hagain⟩ := Request.run_of_no_error
      (fun failure h => hnone failure (Request.refused_writing_iff.1 h))
      (fun call hc => (hcalls call hc).2)
    refine ⟨hsecond.trans (Eq.trans ?_ hfirst.symm), hagain.trans (Eq.trans ?_ hreports.symm)⟩
    · rw [hsame.writes, hsame.maps, hsame.early]
      rfl
    · rw [hsame.early]

end ScriptHost
