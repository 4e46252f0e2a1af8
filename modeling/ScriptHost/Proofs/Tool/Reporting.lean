import ScriptHost.Proofs.Compilation.Refused
import ScriptHost.Tool

/-! What the tool does as one run of its engine: what it shows of the run, and with which status it
ends. -/

namespace ScriptHost

namespace Engine

variable {engine : Engine} {request : Request} {host : Host} {disk : Disk}

/-- What a run has to report of a phase. -/
def told (engine : Engine) (request : Request) (host : Host) (disk : Disk) : Phase → List Diagnostic
  | .program => engine.early request host disk
  | .semantic =>
    ((engine.built request host disk).answer.checker request.configuration.fullTypeCheck).semantic
  | .emission => (engine.emitted request host disk).answer.diagnostics

/-- A run goes through its phases in their order, as far as it gets, and a callback is shown what
each has to report. -/
theorem seen_run (engine : Engine) (request : Request) (host : Host) (disk : Disk)
    (hc : request.callback.isSome = true) :
    let outcome := engine.run request host disk
    outcome.phases.Sublist [.program, .semantic, .emission] ∧
      outcome.reports.seen =
        (outcome.phases.flatMap (engine.told request host disk)).map Diagnostic.notice := by
  intro outcome
  have hseen (stream : List Diagnostic) :
      (Reports.forward request.callback {} stream).seen = stream.map Diagnostic.notice := by
    rw [((Reports.tells_nil request.callback).forward stream).seen, if_pos hc, List.nil_append]
  by_cases hr : ∃ failure, request.Refused host disk failure
  · obtain ⟨failure, hr⟩ := hr
    obtain ⟨_, hrun⟩ := engine.exists_run_eq_of_refused hr
    have hout : outcome = _ := hrun
    rw [hout]
    exact ⟨List.nil_sublist _, rfl⟩
  · obtain ⟨compilation, hok⟩ := ok_of_not_refused engine (not_exists.1 hr)
    obtain ⟨hf, directory, hd⟩ := enters_of_ok hok
    have hrun : outcome = finish request (request.commandLine engine host disk).errors
        (engine.built request host disk).answer (engine.built request host disk).host
        (engine.built request host disk).disk := run_eq_finish hf hd
    by_cases he : request.configuration.fullTypeCheck = true ∧
        (request.commandLine engine host disk).errors ++
          (engine.built request host disk).answer.early ≠ []
    · have hs : [Phase.program].Sublist [.program, .semantic, .emission] := by decide
      rw [finish_of_early request he.1 he.2] at hrun
      rw [hrun, hseen]
      exact ⟨hs, by simp [told, early]⟩
    · rw [finish_of_not_early request he] at hrun
      rw [hrun, hseen]
      cases hfull : request.configuration.fullTypeCheck with
      | false =>
        have hs : [Phase.program, .emission].Sublist [.program, .semantic, .emission] := by decide
        exact ⟨hs, by simp [told, early, emitted, hfull]⟩
      | true => exact ⟨List.Sublist.refl _, by simp [told, early, emitted, hfull]⟩

end Engine

namespace Tool

variable {invocation : Invocation} {sources : List Descriptor} {stdin : ByteArray} {disk : Disk}

/-- The host that the tool has its run on. -/
def hostFor (invocation : Invocation) : Host :=
  let configuration := (settings invocation).configuration
  if invocation.stdin then { Engine.memoryHost configuration with redirect := some "" }
  else { configuration := configuration, write := if invocation.print then .string else .file }

/-- Whether there is nothing to do: standard input is to be compiled, and it is empty. -/
def Idle (invocation : Invocation) (stdin : ByteArray) : Prop :=
  invocation.stdin = true ∧ String.fromUTF8? stdin = some ""

/-- The sources of the tool's run, if it gets to one: standard input, unless it is empty or no text,
or what the inputs lead to. -/
def sources? (invocation : Invocation) (stdin : ByteArray) (disk : Disk) :
    Option (List Descriptor) :=
  if invocation.stdin then
    match String.fromUTF8? stdin with
    | some text => if text.isEmpty then none else some [.string StringInput.rawName text]
    | none => none
  else
    match collect disk invocation.inputs with
    | .ok (first :: others) => some (first :: others)
    | _ => none

/-- The tool's run on sources. -/
def outcome (invocation : Invocation) (sources : List Descriptor) (disk : Disk) :
    Outcome Compilation :=
  Engine.verbatim.run ((settings invocation).request sources) (hostFor invocation) disk

/-- What the tool prints of an outcome. -/
def printed (invocation : Invocation) (outcome : Outcome Compilation) (compilation : Compilation) :
    String :=
  if invocation.stdin then String.join (outcome.host.forwarded.map Forwarded.data)
  else if invocation.print then String.join compilation.outputs.values
  else ""

/-- What the tool shows of a run that returns a result, and the status that it ends with. -/
structure Reported (invocation : Invocation) (stdin : ByteArray) (disk : Disk) (exit : Exit) :
    Prop where
  status : exit.status = 0 ↔ Idle invocation stdin ∨ ∃ sources compilation,
    sources? invocation stdin disk = some sources ∧
      (outcome invocation sources disk).result = .ok compilation ∧
      (outcome invocation sources disk).reports.seen = []
  idle : Idle invocation stdin → exit.errors = ""
  lines : ∀ sources compilation, sources? invocation stdin disk = some sources →
    let outcome := outcome invocation sources disk
    outcome.result = .ok compilation →
      exit.errors = String.join ((outcome.phases.flatMap
        (Engine.verbatim.told ((settings invocation).request sources) (hostFor invocation) disk)).map
          fun diagnostic => diagnostic.render ++ "\n") ∧
      outcome.phases.Sublist [.program, .semantic, .emission]

theorem finish_map {α : Type} (outcome : Outcome α) (print : α → String) :
    finish (outcome.map print) id = finish outcome print := by
  unfold finish Outcome.map
  cases outcome.result <;> rfl

theorem medium_of_mem_discover {found : List Descriptor} {root : String}
    (h : disk.discover root = .ok found) : ∀ source ∈ found, source.medium = .file := by
  unfold Disk.discover at h
  cases hs : (disk.walkDir root).mapM fun step => step.mapError (DiscoveryError.mk root) with
  | error error => simp [hs, bind, Except.bind] at h
  | ok entries =>
    obtain rfl : (entries.filter WalkEntry.isSource).map (.file ·.path) = found := by
      simpa [hs, bind, Except.bind, pure, Except.pure] using h
    intro source hm
    obtain ⟨entry, -, rfl⟩ := List.mem_map.1 hm
    rfl

/-- All that inputs lead to are files. -/
theorem medium_of_mem_collect {inputs : List String} (h : collect disk inputs = .ok sources) :
    ∀ source ∈ sources, source.medium = .file := by
  induction inputs generalizing sources with
  | nil =>
    obtain rfl : [] = sources := Except.ok.inj h
    simp
  | cons input inputs ih =>
    have hsplit : ∃ found rest, collect disk inputs = .ok rest ∧ sources = found ++ rest ∧
        ∀ source ∈ found, source.medium = .file := by
      rw [collect] at h
      cases hrest : collect disk inputs with
      | error failure =>
        rw [hrest] at h
        revert h
        split
        · cases disk.discover input <;> simp [bind, Except.bind]
        · simp [bind, Except.bind]
      | ok rest =>
        rw [hrest] at h
        revert h
        split
        · cases hd : disk.discover input with
          | error error => simp [bind, Except.bind]
          | ok found =>
            intro h
            exact ⟨found, rest, rfl, (Except.ok.inj h).symm, medium_of_mem_discover hd⟩
        · intro h
          exact ⟨[.file input], rest, rfl, (Except.ok.inj h).symm, by simp [Descriptor.medium]⟩
    obtain ⟨found, rest, hrest, rfl, hfound⟩ := hsplit
    intro source hm
    rcases List.mem_append.1 hm with hm | hm
    · exact hfound source hm
    · exact ih hrest source hm

theorem map_file_name (h : ∀ source ∈ sources, source.medium = .file) :
    (sources.map Descriptor.name).map .file = sources := by
  rw [List.map_map]
  refine (List.map_congr_left fun source hm => ?_).trans (List.map_id sources)
  have hfile := h source hm
  cases source with
  | file name => rfl
  | string name contents => simp [Descriptor.medium] at hfile

theorem compileSources_eq (hs : invocation.stdin = false)
    (hm : ∀ source ∈ sources, source.medium = .file) (hn : sources ≠ []) :
    compileSources invocation sources disk =
      finish (outcome invocation sources disk)
        (printed invocation (outcome invocation sources disk)) := by
  unfold compileSources outcome printed hostFor
  rw [hs]
  cases hp : invocation.print with
  | true => rfl
  | false =>
    have hfiles : (sources.map Descriptor.name).isEmpty = false := by simpa using hn
    simp only [Bool.false_eq_true, if_false, Engine.compile, hfiles, map_file_name hm]

/-- With sources, the tool does what comes of its run on them. -/
theorem execute_of_sources (h : sources? invocation stdin disk = some sources) :
    execute invocation stdin disk =
      finish (outcome invocation sources disk)
        (printed invocation (outcome invocation sources disk)) := by
  unfold sources? at h
  unfold execute
  cases hs : invocation.stdin with
  | true =>
    cases ht : String.fromUTF8? stdin with
    | none => simp [hs, ht] at h
    | some text =>
      cases he : text.isEmpty with
      | true => simp [hs, ht, he] at h
      | false =>
        obtain rfl : [.string StringInput.rawName text] = sources := by simpa [hs, ht, he] using h
        simp only [if_true, compileStdin, ht, Engine.compileString, StringInput.source?, he,
          Bool.false_eq_true, if_false, finish_map]
        unfold outcome printed hostFor
        simp only [hs, if_true]
  | false =>
    cases hc : collect disk invocation.inputs with
    | error failure => simp [hs, hc] at h
    | ok found =>
      cases found with
      | nil => simp [hs, hc] at h
      | cons first others =>
        obtain rfl : first :: others = sources := by simpa [hs, hc] using h
        exact compileSources_eq hs (medium_of_mem_collect hc) (by simp)

/-- The tool has no sources because there is nothing to do, or because it fails. Either way it
leaves the disk alone and prints nothing, and whether it was to print makes no difference. -/
theorem execute_of_no_sources (h : sources? invocation stdin disk = none) :
    ∃ exit, (∀ print, execute { invocation with print := print } stdin disk = exit) ∧
      exit.output = "" ∧ exit.disk = disk ∧
      (Idle invocation stdin ∧ exit.status = 0 ∧ exit.errors = "" ∨
        ¬ Idle invocation stdin ∧ exit.status = 1) := by
  unfold sources? at h
  unfold execute Idle
  cases hs : invocation.stdin with
  | true =>
    refine ⟨compileStdin invocation stdin disk, fun print => rfl, ?_⟩
    cases ht : String.fromUTF8? stdin with
    | none =>
      simp only [compileStdin, ht]
      exact ⟨rfl, rfl, .inr ⟨by simp, rfl⟩⟩
    | some text =>
      cases he : text.isEmpty with
      | false => simp [hs, ht, he] at h
      | true =>
        obtain rfl : text = "" := by simpa using he
        simp only [compileStdin, ht]
        exact ⟨rfl, rfl, .inl ⟨⟨trivial, trivial⟩, rfl, rfl⟩⟩
  | false =>
    cases hc : collect disk invocation.inputs with
    | error failure =>
      exact ⟨fail disk failure, fun print => by simp [hc], rfl, rfl, .inr ⟨by simp, rfl⟩⟩
    | ok found =>
      cases found with
      | nil =>
        exact ⟨fail disk ⟨InputError.noFiles.message, []⟩, fun print => by simp [hc], rfl, rfl,
          .inr ⟨by simp, rfl⟩⟩
      | cons first others => simp [hs, hc] at h

theorem not_idle_of_sources (h : sources? invocation stdin disk = some sources) :
    ¬ Idle invocation stdin := by
  rintro ⟨hs, ht⟩
  simp [sources?, hs, ht] at h

theorem reported_execute (invocation : Invocation) (stdin : ByteArray) (disk : Disk) :
    Reported invocation stdin disk (execute invocation stdin disk) := by
  cases h : sources? invocation stdin disk with
  | none =>
    obtain ⟨exit, hexit, -, -, hend⟩ := execute_of_no_sources h
    rw [hexit invocation.print]
    rcases hend with ⟨hi, hstatus, herrors⟩ | ⟨hi, hstatus⟩
    · exact ⟨by simp [hi, hstatus], fun _ => herrors, fun sources compilation hs => by simp [h] at hs⟩
    · exact ⟨by simp [hi, hstatus, h], fun hi' => (hi hi').elim,
        fun sources compilation hs => by simp [h] at hs⟩
  | some sources =>
    have hi := not_idle_of_sources h
    obtain ⟨hphases, hseen⟩ := Engine.verbatim.seen_run ((settings invocation).request sources)
      (hostFor invocation) disk rfl
    rw [execute_of_sources h]
    refine ⟨?_, fun hi' => (hi hi').elim, fun other compilation hs => ?_⟩
    · simp only [hi, false_or, h, Option.some.injEq, exists_and_left, exists_eq_left']
      unfold finish
      cases hr : (outcome invocation sources disk).result with
      | error error => simp
      | ok compilation => cases (outcome invocation sources disk).reports.seen <;> simp
    · obtain rfl : sources = other := Option.some.inj (h.symm.trans hs)
      intro run hr
      have hshown : (finish run (printed invocation run)).errors =
          String.join (run.reports.seen.map fun notice => notice.line ++ "\n") := by
        unfold finish
        rw [hr]
      have htold : run.reports.seen = (run.phases.flatMap (Engine.verbatim.told
          ((settings invocation).request sources) (hostFor invocation) disk)).map
            Diagnostic.notice := hseen
      rw [hshown, htold, List.map_map]
      exact ⟨rfl, hphases⟩

end Tool

end ScriptHost
