import ScriptHost.Compilation
import ScriptHost.Proofs.Closure.Serve
import ScriptHost.Proofs.Host.Registration
import ScriptHost.Proofs.Report

/-! The phases of a run: what its result, its reports, its host and its disk have to do with the
program that was built. -/

namespace ScriptHost

variable {engine : Engine} {request : Request} {host : Host} {disk : Disk}
  {compilation : Compilation}

/-- The host that a run builds its program with. -/
def Request.enter (request : Request) (host : Host) (disk : Disk) : Host :=
  request.register (host.forgetDirectories.currentDirectory disk).2

/-- The request with its callback changed. -/
def Request.answeredBy (request : Request) (callback : Option Callback) : Request :=
  { request with callback := callback }

/-- An outcome but for its reports. -/
def Outcome.unreported {α : Type} (outcome : Outcome α) : Outcome α :=
  { outcome with reports := {} }

namespace Engine

/-- The program of a run, and the host and the disk once it has been built. -/
def built (engine : Engine) (request : Request) (host : Host) (disk : Disk) :
    Host.Served Program :=
  let line := request.commandLine engine host disk
  let host := request.enter host disk
  host.serve (engine.build host.served (request.roots host line) line.options) disk

/-- What is wrong with the arguments of a run and then with its program. -/
def early (engine : Engine) (request : Request) (host : Host) (disk : Disk) : List Diagnostic :=
  (request.commandLine engine host disk).errors ++ (engine.built request host disk).answer.early

/-- The emission of a run that gets there. -/
def emitted (engine : Engine) (request : Request) (host : Host) (disk : Disk) :
    Host.Served Emission :=
  let built := engine.built request host disk
  built.host.serve (built.answer.checker request.configuration.fullTypeCheck).emit built.disk

variable {errors : List Diagnostic} {program : Program}

theorem forward_if (callback : Option Callback) (reports : Reports) (full : Bool)
    (diagnostics : List Diagnostic) :
    (if full then reports.forward callback diagnostics else reports) =
      reports.forward callback (if full then diagnostics else []) := by
  cases full <;> rfl

theorem finish_of_early (request : Request) (hf : request.configuration.fullTypeCheck = true)
    (he : errors ++ program.early ≠ []) :
    finish request errors program host disk =
      { result := .ok ⟨host.outputs, [], (errors ++ program.early).map Diagnostic.render⟩
        reports := Reports.forward request.callback {} (errors ++ program.early)
        phases := [.program], host := host, disk := disk } := by
  simp only [finish, hf, Bool.true_and, Bool.not_eq_true', List.isEmpty_eq_false_iff]
  rw [if_pos he, Reports.lines_forward]
  rfl

theorem finish_of_not_early (request : Request)
    (h : ¬ (request.configuration.fullTypeCheck = true ∧ errors ++ program.early ≠ [])) :
    let full := request.configuration.fullTypeCheck
    let checker := program.checker full
    let emitted := host.serve checker.emit disk
    let stream := errors ++ program.early ++ (if full then checker.semantic else []) ++
      emitted.answer.diagnostics
    finish request errors program host disk =
      { result := .ok ⟨emitted.host.outputs, emitted.answer.sourceMaps,
          stream.map Diagnostic.render⟩
        reports := Reports.forward request.callback {} stream
        phases := .program :: (if full then [.semantic] else []) ++ [.emission]
        host := emitted.host, disk := emitted.disk } := by
  intro full checker emitted stream
  have hc : ¬ (full && !(errors ++ program.early).isEmpty) = true := by simpa using h
  unfold finish
  rw [if_neg hc]
  simp only [forward_if]
  simp only [← Reports.forward_append, Reports.lines_forward]
  rfl

/-- A run whose sources suit its host, and that has a current directory, finishes the program that
it builds. -/
theorem run_eq_finish {directory : String} (hf : request.fault? host = none)
    (hd : (host.forgetDirectories.currentDirectory disk).1 = .ok directory) :
    engine.run request host disk =
      finish request (request.commandLine engine host disk).errors
        (engine.built request host disk).answer (engine.built request host disk).host
        (engine.built request host disk).disk := by
  unfold built Request.enter run
  rw [hf]
  cases he : host.forgetDirectories.currentDirectory disk with
  | mk answer entered =>
    obtain rfl : answer = .ok directory := by simpa [he] using hd
    rfl

/-- Such a run goes through its phases to the end unless a full check meets early diagnostics. -/
theorem phases_run {directory : String} (hf : request.fault? host = none)
    (hd : (host.forgetDirectories.currentDirectory disk).1 = .ok directory) :
    (engine.run request host disk).phases =
      if request.configuration.fullTypeCheck = true ∧ engine.early request host disk ≠ [] then
        [.program]
      else
        .program :: (if request.configuration.fullTypeCheck then [.semantic] else []) ++
          [.emission] := by
  rw [run_eq_finish hf hd]
  by_cases he : request.configuration.fullTypeCheck = true ∧ engine.early request host disk ≠ []
  · rw [if_pos he, finish_of_early request he.1 he.2]
  · rw [if_neg he, finish_of_not_early request he]

theorem enters_of_ok (h : (engine.run request host disk).result = .ok compilation) :
    request.fault? host = none ∧
      ∃ directory, (host.forgetDirectories.currentDirectory disk).1 = .ok directory := by
  unfold run at h
  cases hf : request.fault? host with
  | some error => simp [hf] at h
  | none =>
    cases hd : host.forgetDirectories.currentDirectory disk with
    | mk answer entered =>
      cases answer with
      | error error => simp [hf, hd] at h
      | ok directory => exact ⟨rfl, directory, rfl⟩

/-- The outputs of a run that comes to its end are those of its host by then. -/
theorem outputs_of_ok (h : (engine.run request host disk).result = .ok compilation) :
    compilation.outputs = (engine.run request host disk).host.outputs := by
  obtain ⟨hf, directory, hd⟩ := enters_of_ok h
  rw [run_eq_finish hf hd] at h ⊢
  by_cases he : request.configuration.fullTypeCheck = true ∧ engine.early request host disk ≠ []
  · rw [finish_of_early request he.1 he.2] at h ⊢
    rw [← Except.ok.inj h]
  · rw [finish_of_not_early request he] at h ⊢
    rw [← Except.ok.inj h]

theorem built_refine (engine : Engine) (change : Program → Program) (request : Request)
    (host : Host) (disk : Disk) :
    (engine.refine change).built request host disk =
      ⟨change (engine.built request host disk).answer, (engine.built request host disk).host,
        (engine.built request host disk).disk⟩ := by
  simp only [built, refine, Host.serve_bind]
  rfl

theorem finish_with_callback (request : Request) (callback : Option Callback)
    (errors : List Diagnostic) (program : Program) (host : Host) (disk : Disk) :
    (finish (request.answeredBy callback) errors program host disk).unreported =
      (finish request errors program host disk).unreported := by
  by_cases h : request.configuration.fullTypeCheck = true ∧ errors ++ program.early ≠ []
  · rw [finish_of_early request h.1 h.2, finish_of_early (request.answeredBy callback) h.1 h.2]
    rfl
  · rw [finish_of_not_early request h, finish_of_not_early (request.answeredBy callback) h]
    rfl

/-- A callback makes no difference but for the reports. -/
theorem run_with_callback (engine : Engine) (request : Request) (callback : Option Callback)
    (host : Host) (disk : Disk) :
    (engine.run (request.answeredBy callback) host disk).unreported =
      (engine.run request host disk).unreported := by
  have hf : (request.answeredBy callback).fault? host = request.fault? host := rfl
  unfold run
  rw [hf]
  cases request.fault? host with
  | some error => rfl
  | none =>
    cases hd : host.forgetDirectories.currentDirectory disk with
    | mk answer entered =>
      cases answer with
      | error error => rfl
      | ok directory => exact finish_with_callback request callback _ _ _ _

end Engine

theorem exists_currentDirectory_eq (host : Host) (disk : Disk) :
    ∃ directory, (host.currentDirectory disk).2 = { host with directory := directory } := by
  unfold Host.currentDirectory
  split
  · exact ⟨host.directory, rfl⟩
  · split
    · exact ⟨host.directory, rfl⟩
    · split
      · exact ⟨_, rfl⟩
      · exact ⟨host.directory, rfl⟩

theorem exists_register_eq (request : Request) (host : Host) :
    ∃ sources names, request.register host =
      { host with sources := sources, sourceNames := names } := by
  cases hr : host.readsFrom with
  | file => exact ⟨host.sources, host.sourceNames, Request.register_of_file hr⟩
  | string =>
    rw [Request.register_of_string hr]
    exact host.exists_addSources_eq request.texts

/-- Entering a run changes what a host knows of directories and its sources, and nothing else. -/
theorem exists_enter_eq (request : Request) (host : Host) (disk : Disk) :
    ∃ directory sources names, request.enter host disk =
      { host with
        known := [], directory := directory, sources := sources, sourceNames := names } := by
  obtain ⟨directory, hd⟩ := exists_currentDirectory_eq host.forgetDirectories disk
  obtain ⟨sources, names, hs⟩ := exists_register_eq request
    { host.forgetDirectories with directory := directory }
  exact ⟨directory, sources, names, by rw [Request.enter, hd, hs]; rfl⟩

theorem platform_enter (request : Request) (host : Host) (disk : Disk) :
    (request.enter host disk).platform = host.platform := by
  obtain ⟨directory, sources, names, he⟩ := exists_enter_eq request host disk
  rw [he]

theorem newLine_enter (request : Request) (host : Host) (disk : Disk) :
    (request.enter host disk).newLine = host.newLine := by
  rw [Host.newLine, platform_enter, Host.newLine]

theorem write_enter (request : Request) (host : Host) (disk : Disk) :
    (request.enter host disk).write = host.write := by
  obtain ⟨directory, sources, names, he⟩ := exists_enter_eq request host disk
  rw [he]

theorem outputs_enter (request : Request) (host : Host) (disk : Disk) :
    (request.enter host disk).outputs = host.outputs := by
  obtain ⟨directory, sources, names, he⟩ := exists_enter_eq request host disk
  rw [he]

theorem outputs_built_verbatim (request : Request) (host : Host) (disk : Disk) :
    (Engine.verbatim.built request host disk).host.outputs = host.outputs := by
  rw [Engine.built, serve_build_verbatim, outputs_enter]

/-- A run with a full check ends with its early diagnostics if there are any, whatever the rest of
the program is, and leaves the host and the disk as they were when it had been built. Any other run
checks in full or not at all, and emits. A callback is shown all diagnostics in the order of the
result, decides on the log alone, and makes no difference to anything else. -/
theorem phases_of_run (engine : Engine) (request : Request) (host : Host) (disk : Disk)
    (compilation : Compilation) (h : (engine.run request host disk).result = .ok compilation) :
    let outcome := engine.run request host disk
    let full := request.configuration.fullTypeCheck
    let early := engine.early request host disk
    let built := engine.built request host disk
    let emitted := engine.emitted request host disk
    (full = true ∧ early ≠ [] →
      outcome.phases = [.program] ∧ outcome.host = built.host ∧ outcome.disk = built.disk ∧
      compilation = ⟨built.host.outputs, [], early.map Diagnostic.render⟩ ∧
      Reports.Tells request.callback outcome.reports early ∧
      (∀ change : Program → Program, (change built.answer).early = built.answer.early →
        (engine.refine change).run request host disk = outcome) ∧
      (engine = Engine.verbatim → compilation.outputs = host.outputs)) ∧
    (¬ (full = true ∧ early ≠ []) →
      let stream := early ++ (if full then (built.answer.checker full).semantic else []) ++
        emitted.answer.diagnostics
      outcome.phases = .program :: (if full then [.semantic] else []) ++ [.emission] ∧
      outcome.host = emitted.host ∧ outcome.disk = emitted.disk ∧
      compilation = ⟨emitted.host.outputs, emitted.answer.sourceMaps,
        stream.map Diagnostic.render⟩ ∧
      Reports.Tells request.callback outcome.reports stream) ∧
    ∀ callback, (engine.run (request.answeredBy callback) host disk).unreported =
      outcome.unreported := by
  intro outcome full early built emitted
  obtain ⟨hfault, directory, hd⟩ := Engine.enters_of_ok h
  have hrun : outcome = Engine.finish request (request.commandLine engine host disk).errors
      built.answer built.host built.disk := Engine.run_eq_finish hfault hd
  have hresult : outcome.result = .ok compilation := h
  refine ⟨fun ⟨hf, he⟩ => ?_, fun hn => ?_, fun callback => ?_⟩
  · rw [Engine.finish_of_early request hf he] at hrun
    rw [hrun] at hresult ⊢
    obtain rfl := Except.ok.inj hresult
    refine ⟨rfl, rfl, rfl, rfl, (Reports.tells_nil _).forward _, fun change hc => ?_, ?_⟩
    · rw [Engine.run_eq_finish hfault hd, Engine.built_refine, Engine.finish_of_early request hf,
        hc]
      · rfl
      · rw [hc]
        exact he
    · rintro rfl
      exact outputs_built_verbatim request host disk
  · rw [Engine.finish_of_not_early request hn] at hrun
    rw [hrun] at hresult ⊢
    obtain rfl := Except.ok.inj hresult
    exact ⟨rfl, rfl, rfl, rfl, (Reports.tells_nil _).forward _⟩
  · exact Engine.run_with_callback engine request callback host disk

/-- A source without the files that it refers to, on a host that has an output already. The callback
leaves all diagnostics but the first to the log. -/
def danglingRequest : Request where
  sources := [.string "a.ts" "var a;\n", .string "b.ts"
    "/// <reference path='gone.ts'/>\n/// <reference path='lost.ts'/>\n"]
  arguments := .parsed { options := { noLib := true } }
  callback := some fun earlier _ line => if earlier = [] ∨ line = "" then .suppress else .report

def emptyDisk : Disk := ⟨.directory [], .root⟩

theorem phases_of_run_dangling :
    let host : Host := {
      configuration := {}, read := .strings false, write := .string
      outputs := NameMap.empty.insert "old.js" "var old;\n" }
    let outcome := Engine.verbatim.run danglingRequest host emptyDisk
    let gone := "b.ts(1,1): error TS6053: File 'gone.ts' not found."
    let lost := "b.ts(2,1): error TS6053: File 'lost.ts' not found."
    ∃ compilation, outcome.result = .ok compilation ∧ outcome.phases = [.program] ∧
      compilation.outputs = host.outputs ∧ compilation.diagnostics = [gone, lost] ∧
      outcome.reports.seen.map Notice.line = [gone, lost] ∧
      outcome.reports.log = [⟨.error, lost⟩] := by
  intro host outcome gone lost
  have ho : outcome.result.isOk = true := by decide +kernel
  cases hr : outcome.result with
  | error error => simp [hr, Except.isOk, Except.toBool] at ho
  | ok compilation =>
    let early := Engine.verbatim.early danglingRequest host emptyDisk
    have he : early.map Diagnostic.render = [gone, lost] := by decide +kernel
    have hn : early ≠ [] := by
      intro h
      simp [h] at he
    obtain ⟨hstop, -⟩ := phases_of_run Engine.verbatim danglingRequest host emptyDisk compilation hr
    obtain ⟨hphases, -, -, hc, htells, -, hout⟩ := hstop ⟨rfl, hn⟩
    have hcallback : danglingRequest.callback.isSome = true := rfl
    have hseen := htells.seen
    rw [if_pos hcallback] at hseen
    have hl : (Reports.logged danglingRequest.callback early).map
        (fun diagnostic => (diagnostic.render, diagnostic.category)) = [(lost, .error)] := by
      decide +kernel
    obtain ⟨diagnostic, hlogged, hpair⟩ := List.map_eq_singleton_iff.1 hl
    obtain ⟨hrender, hcategory⟩ := Prod.mk.inj hpair
    have hlog := htells.log
    rw [hlogged] at hlog
    obtain ⟨record, none, hshows, hnone, hrecords⟩ := List.forall₂_cons_right_iff.1 hlog
    obtain rfl := List.forall₂_nil_right_iff.1 hnone
    have hrecord : record = ⟨.error, lost⟩ := by
      obtain ⟨htext, hlevel⟩ := hshows
      rw [hcategory] at hlevel
      rw [hrender] at htext
      cases record
      simp_all
    refine ⟨compilation, rfl, hphases, hout rfl, by rw [hc, he], ?_, ?_⟩
    · have hline : Notice.line ∘ Diagnostic.notice = Diagnostic.render := rfl
      rw [hseen, List.map_map, hline, he]
    · rw [hrecords, hrecord]

end ScriptHost
