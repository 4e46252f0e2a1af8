import ScriptHost.Proofs.Host.Directories
import ScriptHost.Proofs.Host.Operation

/-! Runs on a host that knows no directory. A host forgets what it knows when a run starts, so its
runs are the same whatever others do to the disk in between. -/

namespace ScriptHost

variable {α : Type}

namespace Host

/-- A host and its disk, where every write looks at the directories again. -/
def unknowing : Server (Host × Disk) where
  read := server.read
  write state name data mark :=
    let written := state.1.writeAnew state.2 name data mark
    (written.answer, written.host, written.disk)
  directory := server.directory
  answer := server.answer

variable {host : Host} {disk : Disk}

theorem knowsRightly_of_nil (h : host.known = []) : host.KnowsRightly disk := by
  simp [KnowsRightly, h]

/-- What a host knows of directories has nothing to do with the current one. -/
theorem currentDirectory_forgetDirectories (host : Host) (disk : Disk) :
    host.forgetDirectories.currentDirectory disk =
      ((host.currentDirectory disk).1, (host.currentDirectory disk).2.forgetDirectories) ∧
    (host.currentDirectory disk).2.known = host.known := by
  obtain ⟨_, _, read, _, _, _, _, _, _, directory, _⟩ := host
  cases read with
  | strings fallback => exact ⟨rfl, rfl⟩
  | files =>
    cases directory with
    | some directory => exact ⟨rfl, rfl⟩
    | none =>
      simp only [currentDirectory, readsFrom, forgetDirectories]
      cases disk.currentDirectory <;> exact ⟨rfl, rfl⟩

/-- A task on a host that knows its directories rightly goes as on a host that knows none: it ends
with the same value, its writes have the same results, and the disk is the same after it. -/
theorem serve_unknowing (task : Task α) (h : host.KnowsRightly disk)
    (hp : disk.Stands disk.current)
    (hn : ∀ attempt ∈ server.attempts task (host, disk), Disk.Nameable attempt.name) :
    let after := server.serve task (host, disk)
    unknowing.serve task (host.forgetDirectories, disk) =
        (after.1, after.2.1.forgetDirectories, after.2.2) ∧
      unknowing.attempts task (host.forgetDirectories, disk) = server.attempts task (host, disk) ∧
      after.2.1.KnowsRightly after.2.2 ∧ after.2.2.Stands after.2.2.current := by
  induction task generalizing host disk with
  | done value => exact ⟨rfl, rfl, h, hp⟩
  | read name k ih => exact ih _ h hp hn
  | write name data mark k ih =>
    obtain ⟨hfirst, hn⟩ := List.forall_mem_cons.1 hn
    obtain ⟨heq, hknow, hstands⟩ := writeFile_eq_writeAnew h hp hfirst data mark
    obtain ⟨hserve, hattempts, hafter⟩ := ih _ hknow hstands hn
    have hwrite : unknowing.write (host.forgetDirectories, disk) name data mark =
        ((host.writeFile disk name data mark).answer,
          (host.writeFile disk name data mark).host.forgetDirectories,
          (host.writeFile disk name data mark).disk) := by
      simp only [unknowing, heq]
    refine ⟨?_, ?_, hafter⟩
    · rw [Server.serve, hwrite]
      exact hserve
    · rw [Server.attempts, hwrite]
      exact congrArg (List.cons _) hattempts
  | currentDirectory k ih =>
    have hknow : (host.currentDirectory disk).2.KnowsRightly disk := by
      obtain ⟨directory, hd⟩ := exists_currentDirectory_eq host disk
      rw [hd]
      exact h
    obtain ⟨hserve, hattempts, hafter⟩ := ih _ hknow hp hn
    have hdirectory : unknowing.directory (host.forgetDirectories, disk) =
        ((host.currentDirectory disk).1,
          (host.currentDirectory disk).2.forgetDirectories, disk) := by
      simp only [unknowing, server, currentDirectory_forgetDirectories]
    refine ⟨?_, ?_, hafter⟩
    · rw [Server.serve, hdirectory]
      exact hserve
    · rw [Server.attempts, hdirectory]
      exact hattempts
  | query question k ih => exact ih _ h hp hn

end Host

/-- A run on a host of any kind: its outcome, and the writes that its engine has asked for. -/
structure Ran where
  outcome : Outcome Compilation
  attempts : List Attempt := []

namespace Machine

/-- The machine with a host that knows no directory. -/
def forget (machine : Machine) : Machine := ⟨machine.host.forgetDirectories, machine.disk⟩

/-- All directories that the host takes to exist do so, and the current directory is on the disk. -/
structure IsSound (machine : Machine) : Prop where
  knows : machine.host.KnowsRightly machine.disk
  stands : machine.disk.Stands machine.disk.current

end Machine

namespace Ran

/-- The machine that a run leaves behind. -/
def after (ran : Ran) : Machine := ⟨ran.outcome.host, ran.outcome.disk⟩

/-- The run but for what its host knows of directories. -/
def forget (ran : Ran) : Ran :=
  { ran with outcome := { ran.outcome with host := ran.outcome.host.forgetDirectories } }

end Ran

namespace Engine

variable (engine : Engine) (server : Server (Host × Disk))

/-- The phases after a program has been built, on a host of any kind. -/
def finishOn (request : Request) (errors : List Diagnostic) (program : Program)
    (machine : Machine) : Ran :=
  let full := request.configuration.fullTypeCheck
  let early := errors ++ program.early
  let reports := Reports.forward request.callback {} early
  if full && !early.isEmpty then
    { outcome :=
      { result := .ok ⟨machine.host.outputs, [], reports.lines⟩
        reports := reports, phases := [.program], host := machine.host, disk := machine.disk } }
  else
    let checker := program.checker full
    let reports :=
      if full then reports.forward request.callback checker.semantic else reports
    let emitted := server.serve checker.emit (machine.host, machine.disk)
    let reports := reports.forward request.callback emitted.1.diagnostics
    { outcome :=
      { result := .ok ⟨emitted.2.1.outputs, emitted.1.sourceMaps, reports.lines⟩
        reports := reports
        phases := .program :: (if full then [.semantic] else []) ++ [.emission]
        host := emitted.2.1, disk := emitted.2.2 }
      attempts := server.attempts checker.emit (machine.host, machine.disk) }

/-- All phases on a host of any kind, once its sources are registered. -/
def driveOn (request : Request) (line : CommandLine) (machine : Machine) : Ran :=
  let task := engine.build machine.host.served (request.roots machine.host line) line.options
  let built := server.serve task (machine.host, machine.disk)
  let finished := finishOn server request line.errors built.1 ⟨built.2.1, built.2.2⟩
  { finished with
    attempts := server.attempts task (machine.host, machine.disk) ++ finished.attempts }

/-- One run on a host of any kind. -/
def runOn (request : Request) (machine : Machine) : Ran :=
  match request.fault? machine.host with
  | some error =>
    { outcome :=
      { result := .error (.invalidInput error), host := machine.host, disk := machine.disk } }
  | none =>
    let line := request.commandLine engine machine.host machine.disk
    match machine.host.forgetDirectories.currentDirectory machine.disk with
    | (.error error, host) =>
      { outcome := { result := .error (.host error), host := host, disk := machine.disk } }
    | (.ok _, host) => engine.driveOn server request line ⟨request.register host, machine.disk⟩

variable {engine} {request : Request} {errors : List Diagnostic} {program : Program}
  {machine : Machine}

theorem outcome_finishOn (request : Request) (errors : List Diagnostic) (program : Program)
    (machine : Machine) : (finishOn Host.server request errors program machine).outcome =
      finish request errors program machine.host machine.disk := by
  unfold finishOn finish
  simp only [Host.serve_server]
  split <;> rfl

/-- On a host and its disk, a run is what an engine makes of it. -/
theorem outcome_runOn (engine : Engine) (request : Request) (machine : Machine) :
    (engine.runOn Host.server request machine).outcome =
      engine.run request machine.host machine.disk := by
  unfold runOn run
  cases request.fault? machine.host with
  | some error => rfl
  | none =>
    cases hd : machine.host.forgetDirectories.currentDirectory machine.disk with
    | mk answer host =>
      cases answer with
      | error error => rfl
      | ok directory =>
        dsimp only [driveOn]
        rw [outcome_finishOn, Host.serve_server]

theorem finishOn_unknowing (h : machine.IsSound)
    (hn : ∀ attempt ∈ (finishOn Host.server request errors program machine).attempts,
      Disk.Nameable attempt.name) :
    let ran := finishOn Host.server request errors program machine
    finishOn Host.unknowing request errors program machine.forget = ran.forget ∧
      ran.after.disk.Stands ran.after.disk.current := by
  unfold finishOn at hn ⊢
  dsimp only at hn ⊢
  split
  · exact ⟨rfl, h.stands⟩
  · rename_i he
    rw [if_neg he] at hn
    obtain ⟨hserve, hattempts, -, hstands⟩ := Host.serve_unknowing _ h.knows h.stands hn
    refine ⟨?_, hstands⟩
    simp only [Machine.forget, hserve, hattempts]
    rfl

theorem driveOn_unknowing {line : CommandLine} (h : machine.IsSound)
    (hn : ∀ attempt ∈ (engine.driveOn Host.server request line machine).attempts,
      Disk.Nameable attempt.name) :
    let ran := engine.driveOn Host.server request line machine
    engine.driveOn Host.unknowing request line machine.forget = ran.forget ∧
      ran.after.disk.Stands ran.after.disk.current := by
  intro ran
  obtain ⟨hserve, hattempts, hknow, hstands⟩ := Host.serve_unknowing (engine.build _ _ _) h.knows
    h.stands fun attempt ha => hn attempt (List.mem_append_left _ ha)
  obtain ⟨hfinish, hafter⟩ := finishOn_unknowing ⟨hknow, hstands⟩
    fun attempt ha => hn attempt (List.mem_append_right _ ha)
  refine ⟨?_, hafter⟩
  have hstart : (machine.forget.host, machine.forget.disk) =
    (machine.host.forgetDirectories, machine.disk) := rfl
  have htask : engine.build machine.forget.host.served (request.roots machine.forget.host line)
      line.options =
    engine.build machine.host.served (request.roots machine.host line) line.options := rfl
  dsimp only [Machine.forget] at hfinish
  simp only [driveOn, hstart, htask, hserve, hattempts, hfinish]
  rfl

/-- A run starts with a host that knows no directory. So whatever the host has known before, the run
goes as on a host that never knows any. -/
theorem runOn_unknowing (hp : machine.disk.Stands machine.disk.current)
    (hn : ∀ attempt ∈ (engine.runOn Host.server request machine).attempts,
      Disk.Nameable attempt.name) :
    let ran := engine.runOn Host.server request machine
    engine.runOn Host.unknowing request machine.forget = ran.forget ∧
      ran.after.disk.Stands ran.after.disk.current := by
  have hfault : request.fault? machine.forget.host = request.fault? machine.host := rfl
  have henter : machine.forget.host.forgetDirectories.currentDirectory machine.forget.disk =
    machine.host.forgetDirectories.currentDirectory machine.disk := rfl
  have hline : request.commandLine engine machine.forget.host machine.forget.disk =
    request.commandLine engine machine.host machine.disk := rfl
  unfold runOn at hn ⊢
  rw [hfault, henter, hline]
  cases hf : request.fault? machine.host with
  | some error => exact ⟨rfl, hp⟩
  | none =>
    rw [hf] at hn
    obtain ⟨directory, hd⟩ :=
      exists_currentDirectory_eq machine.host.forgetDirectories machine.disk
    cases hc : machine.host.forgetDirectories.currentDirectory machine.disk with
    | mk answer host =>
      rw [hc] at hn hd
      obtain rfl : host = { machine.host.forgetDirectories with directory := directory } := hd
      cases answer with
      | error error => exact ⟨rfl, hp⟩
      | ok current =>
        obtain ⟨sources, names, hs⟩ := exists_register_eq request
          { machine.host.forgetDirectories with directory := directory }
        dsimp only at hn ⊢
        rw [hs] at hn ⊢
        have hsound : Machine.IsSound ⟨{ machine.host.forgetDirectories with
            directory := directory, sources := sources, sourceNames := names }, machine.disk⟩ :=
          ⟨Host.knowsRightly_of_nil rfl, hp⟩
        obtain ⟨heq, hafter⟩ := driveOn_unknowing hsound hn
        exact ⟨heq, hafter⟩

end Engine

/-- Whether an operation leaves it to runs to write. Others leave a disk behind with its current
directory on it. -/
def Operation.LeavesWritesToRuns : Operation → Prop
  | .serve (.write _ _ _) => False
  | .elsewhere disk => disk.Stands disk.current
  | _ => True

namespace Machine

variable {server : Server (Host × Disk)} {machine : Machine} {operation : Operation}

/-- The runs among operations on a machine. -/
def runs (machine : Machine) : List Operation → List (Outcome Compilation)
  | [] => []
  | operation :: operations =>
    let later := (operation.perform machine).runs operations
    match operation with
    | .compile engine request => engine.run request machine.host machine.disk :: later
    | _ => later

/-- The runs among operations on a machine, where its host is of any kind. -/
def ranOn (server : Server (Host × Disk)) (machine : Machine) : List Operation → List Ran
  | [] => []
  | operation :: operations =>
    match operation with
    | .compile engine request =>
      let ran := engine.runOn server request machine
      ran :: ran.after.ranOn server operations
    | _ => (operation.perform machine).ranOn server operations

/-- An operation other than a run has nothing to do with what is known of directories. -/
theorem perform_forget (machine : Machine) (ho : operation.LeavesWritesToRuns)
    (hc : ∀ engine request, operation ≠ .compile engine request) :
    operation.perform machine.forget = (operation.perform machine).forget := by
  cases operation with
  | compile engine request => exact (hc engine request rfl).elim
  | serve ask =>
    cases ask with
    | write name data mark => exact ho.elim
    | currentDirectory =>
      simp only [Operation.perform, Call.after, forget, Host.currentDirectory_forgetDirectories]
    | _ => rfl
  | _ => rfl

theorem stands_perform (hp : machine.disk.Stands machine.disk.current)
    (ho : operation.LeavesWritesToRuns)
    (hc : ∀ engine request, operation ≠ .compile engine request) :
    (operation.perform machine).disk.Stands (operation.perform machine).disk.current := by
  cases operation with
  | compile engine request => exact (hc engine request rfl).elim
  | serve ask =>
    cases ask with
    | write name data mark => exact ho.elim
    | _ => exact hp
  | elsewhere disk => exact ho
  | _ => exact hp

theorem ranOn_of_ne_compile (server : Server (Host × Disk)) (machine : Machine)
    (hc : ∀ engine request, operation ≠ .compile engine request) (operations : List Operation) :
    machine.ranOn server (operation :: operations) =
        (operation.perform machine).ranOn server operations ∧
      machine.runs (operation :: operations) = (operation.perform machine).runs operations := by
  cases operation with
  | compile engine request => exact (hc engine request rfl).elim
  | _ => exact ⟨rfl, rfl⟩

end Machine

/-- It is never seen what a host knows of directories. Of any runs on one host, whatever others do
to the disk between them, each has the outcome that it has on a host that never knows any: the same
result, reports, outputs and disk. Each write that its engine asks for has the same answer. The disk
sets a limit to the length of paths, and no name that is written is beyond it because of slashes
that could be left out. -/
theorem runs_as_unknowing (machine : Machine) (operations : List Operation)
    (hp : machine.disk.Stands machine.disk.current)
    (ho : ∀ operation ∈ operations, operation.LeavesWritesToRuns)
    (hn : ∀ ran ∈ machine.ranOn Host.server operations, ∀ attempt ∈ ran.attempts,
      Disk.Nameable attempt.name) :
    machine.forget.ranOn Host.unknowing operations =
        (machine.ranOn Host.server operations).map Ran.forget ∧
      (machine.ranOn Host.server operations).map Ran.outcome = machine.runs operations := by
  induction operations generalizing machine with
  | nil => exact ⟨rfl, rfl⟩
  | cons operation operations ih =>
    obtain ⟨hfirst, hrest⟩ := List.forall_mem_cons.1 ho
    by_cases hc : ∃ engine request, operation = .compile engine request
    · obtain ⟨engine, request, rfl⟩ := hc
      have hran : machine.ranOn Host.server (.compile engine request :: operations) =
        engine.runOn Host.server request machine ::
          (engine.runOn Host.server request machine).after.ranOn Host.server operations := rfl
      rw [hran] at hn ⊢
      obtain ⟨hnfirst, hn⟩ := List.forall_mem_cons.1 hn
      obtain ⟨heq, hstands⟩ := Engine.runOn_unknowing hp hnfirst
      obtain ⟨hforget, hruns⟩ := ih _ hstands hrest hn
      constructor
      · have hmore : machine.forget.ranOn Host.unknowing (.compile engine request :: operations) =
          engine.runOn Host.unknowing request machine.forget ::
            (engine.runOn Host.unknowing request machine.forget).after.ranOn Host.unknowing
              operations := rfl
        rw [hmore, heq, List.map_cons, ← hforget]
        rfl
      · have hafter : (engine.runOn Host.server request machine).after =
            machine.run engine request := by
          rw [Ran.after, Engine.outcome_runOn, Machine.run]
        rw [List.map_cons, Engine.outcome_runOn, hruns, hafter]
        rfl
    · have hc : ∀ engine request, operation ≠ .compile engine request := by simpa using hc
      rw [(machine.ranOn_of_ne_compile Host.server hc operations).1] at hn ⊢
      rw [(machine.ranOn_of_ne_compile Host.server hc operations).2,
        (machine.forget.ranOn_of_ne_compile Host.unknowing hc operations).1,
        machine.perform_forget hfirst hc]
      exact ih _ (machine.stands_perform hp hfirst hc) hrest hn

/-- A disk with one source, and with what there is under the name `out`. -/
def diskWith (out : List (String × Node)) : Disk :=
  ⟨.directory (("a.ts", .file "var a;\n".toUTF8) :: out), .root⟩

/-- A request for a source on disk, with its output in a directory that need not exist. -/
def outRequest : Request :=
  { sources := [.file "a.ts"], arguments := .tokens ["--noLib", "--outDir", "out/b"] }

/-- Three runs. Others remove what the first has made, and put a file in the place of what the
second has made. -/
def disturbedRuns : List Operation := [
  .compile Engine.verbatim outRequest, .elsewhere (diskWith []),
  .compile Engine.verbatim outRequest, .elsewhere (diskWith [("out", .file "".toUTF8)]),
  .compile Engine.verbatim outRequest]

/-- The diagnostics of a run, and the text that it leaves behind in a file. -/
def Outcome.shown (outcome : Outcome Compilation) (file : String) :
    Option (List String) × Option String :=
  (outcome.result.toOption.map Compilation.diagnostics, (outcome.disk.readText file).toOption)

theorem runs_as_unknowing_disturbed :
    let start : Machine := ⟨{ configuration := {} }, diskWith []⟩
    (start.runs disturbedRuns).map (·.host.known) = [["out", "out/b"], ["out", "out/b"], []] ∧
    (start.forget.ranOn Host.unknowing disturbedRuns).map (·.outcome.shown "out/b/a.js") = [
      (some [], some "var a;\n"), (some [], some "var a;\n"),
      (some ["error TS5033: Could not write file 'out/b/a.js': File exists (os error 17)."],
        none)] := by
  intro start
  have hstands (out : List (String × Node)) : (diskWith out).Stands (diskWith out).current := rfl
  have hoperations : ∀ operation ∈ disturbedRuns, operation.LeavesWritesToRuns := by
    simp [disturbedRuns, Operation.LeavesWritesToRuns, hstands]
  have hshort : (start.ranOn Host.server disturbedRuns).all
      (fun ran => ran.attempts.all fun attempt =>
        decide ((FileName.normalize attempt.name).utf8ByteSize ≤ Disk.maxPath)) = true := by
    decide +kernel
  have hnames : ∀ ran ∈ start.ranOn Host.server disturbedRuns, ∀ attempt ∈ ran.attempts,
      Disk.Nameable attempt.name := by
    intro ran hr attempt ha
    have hall := List.all_eq_true.1 (List.all_eq_true.1 hshort ran hr) attempt ha
    exact Disk.nameable_of_size_le (of_decide_eq_true hall)
  obtain ⟨hforget, hruns⟩ :=
    runs_as_unknowing start disturbedRuns (hstands []) hoperations hnames
  constructor
  · decide +kernel
  · have hshown :
        (start.ranOn Host.server disturbedRuns).map (·.forget.outcome.shown "out/b/a.js") =
          (start.runs disturbedRuns).map (·.shown "out/b/a.js") := by
      rw [← hruns, List.map_map]
      rfl
    rw [hforget, List.map_map]
    refine hshown.trans ?_
    decide +kernel

end ScriptHost
