import ScriptHost.Proofs.Compilation.Media
import ScriptHost.Proofs.Text.Order
import ScriptHost.Proofs.Tool.Reporting

/-! The tool with and without `--print`: it reports the same and ends with the same status, and what
it prints is what it writes otherwise. -/

namespace ScriptHost

namespace Invocation

variable {invocation result : Invocation} {arguments : List String}

theorem withLibrary?_printing (invocation : Invocation) (name : String) :
    withLibrary? { invocation with print := true } name =
      (invocation.withLibrary? name).map fun result => { result with print := true } := by
  unfold withLibrary?
  split <;> rfl

theorem print_of_withLibrary? {name : String} (h : invocation.withLibrary? name = some result) :
    result.print = invocation.print := by
  unfold withLibrary? at h
  split at h
  · simp at h
  · rw [← Option.some.inj h]

/-- No argument takes the flag back. -/
theorem print_of_read (h : read invocation arguments = .run result)
    (hp : invocation.print = true) : result.print = true := by
  fun_induction read invocation arguments <;> grind [print_of_withLibrary?]

/-- Arguments without the flag mean the same behind it. -/
theorem read_printing (h : read invocation arguments = .run result) (hp : result.print = false) :
    read { invocation with print := true } arguments = .run { result with print := true } := by
  fun_induction read invocation arguments with
  | case1 invocation =>
    obtain rfl := Parsed.run.inj h
    rfl
  | case2 invocation argument rest hk =>
    obtain rfl := Parsed.run.inj h
    simp [read.eq_def, hk]
  | case8 invocation argument rest hk hn ih =>
    -- The flag itself is the one argument that cannot be among them.
    have hprint : result.print = true := print_of_read h rfl
    rw [hprint] at hp
    contradiction
  | _ =>
    rw [read.eq_def]
    simp_all [withLibrary?_printing]

theorem parse_printing (h : parse arguments = .run result) (hp : result.print = false) :
    parse ("--print" :: arguments) = .run { result with print := true } := by
  have hkind : kind "--print" = .print := by decide +kernel
  rw [parse, read.eq_def]
  simp only [hkind, Bool.false_eq_true, if_false]
  exact read_printing h hp

end Invocation

namespace Tool

variable {invocation : Invocation} {sources : List Descriptor} {stdin : ByteArray} {disk : Disk}

/-- The requests that are made of the host in the tool's run, if it gets to one. -/
def calls (invocation : Invocation) (stdin : ByteArray) (disk : Disk) : List Call :=
  match sources? invocation stdin disk with
  | some sources =>
    Machine.runCalls ⟨hostFor invocation, disk⟩ Engine.verbatim ((settings invocation).request sources)
  | none => []

/-- The outputs that the tool leaves: those of its run, which are what was last written under each
name, and each of them has gone to the file of that name. -/
structure Leaves (invocation : Invocation) (stdin : ByteArray) (disk : Disk)
    (outputs : NameMap String) (exit : Exit) : Prop where
  ordered : outputs.names.Pairwise fun name other => Text.bytes name < Text.bytes other
  recorded : ∀ sources compilation, sources? invocation stdin disk = some sources →
    (outcome invocation sources disk).result = .ok compilation → compilation.outputs = outputs
  last : ∀ name, outputs.get? name =
    ((calls invocation stdin disk).filterMap Call.kept?).reverse.lookup name
  written : ∀ call ∈ calls invocation stdin disk, ∀ name text, call.kept? = some (name, text) →
    ∃ made : Disk, made.writeBytes (FileName.normalize name) text.toUTF8 = .ok call.after.disk
  changed : exit.disk = (calls invocation stdin disk).foldl Call.diskAfter disk

theorem disk_finish {α : Type} (outcome : Outcome α) (print : α → String) :
    (finish outcome print).disk = outcome.disk := by
  unfold finish
  cases outcome.result <;> rfl

/-- What the tool reports of an outcome does not depend on what it prints. -/
theorem finish_congr {α : Type} {first second : Outcome α} {print also : α → String}
    (hresult : first.result = second.result) (hreports : first.reports = second.reports) :
    (finish first print).errors = (finish second also).errors ∧
      (finish first print).status = (finish second also).status := by
  unfold finish
  rw [hresult, hreports]
  cases second.result <;> exact ⟨rfl, rfl⟩

theorem output_finish_of_silent {α : Type} {outcome : Outcome α} {print : α → String}
    (h : ∀ value, print value = "") : (finish outcome print).output = "" := by
  unfold finish
  cases outcome.result with
  | ok value => exact h value
  | error error => rfl

theorem hostFor_printing (invocation : Invocation) :
    hostFor { invocation with print := true } = (hostFor invocation).writing .string := by
  unfold hostFor
  cases hs : invocation.stdin <;> rfl

theorem outputs_hostFor (invocation : Invocation) : (hostFor invocation).outputs = .empty := by
  unfold hostFor
  cases hs : invocation.stdin <;> rfl

theorem calls_of_sources (h : sources? invocation stdin disk = some sources) :
    calls invocation stdin disk = Machine.runCalls ⟨hostFor invocation, disk⟩ Engine.verbatim
      ((settings invocation).request sources) := by
  rw [calls, h]

theorem ordered_names (outputs : NameMap String) :
    outputs.names.Pairwise fun name other => Text.bytes name < Text.bytes other := by
  have hsorted : outputs.names.Pairwise (· < ·) := List.pairwise_map.2 outputs.sorted
  exact hsorted.imp fun {name other} h => (Text.lt_iff_bytes_lt name other).1 h

/-- The outputs of the tool's run on files, which has no outputs to start with. -/
theorem leaves_of_sources (hs : invocation.stdin = false) (hp : invocation.print = false)
    (h : sources? invocation stdin disk = some sources) :
    Leaves invocation stdin disk (outcome invocation sources disk).host.outputs
      (execute invocation stdin disk) := by
  let machine : Machine := ⟨hostFor invocation, disk⟩
  let operation : Operation := .compile Engine.verbatim ((settings invocation).request sources)
  have hhost : hostFor invocation =
      { configuration := (settings invocation).configuration, write := .file } := by
    unfold hostFor
    rw [hs, hp]
    rfl
  have hcalls : calls invocation stdin disk = operation.calls machine := calls_of_sources h
  refine ⟨ordered_names _, fun other compilation hother hok => ?_, fun name => ?_,
    fun call hc name text hk => ?_, ?_⟩
  · obtain rfl : sources = other := Option.some.inj (h.symm.trans hother)
    exact Engine.outputs_of_ok hok
  · have houtputs : (outcome invocation sources disk).host.outputs = _ :=
      operation.outputs_perform machine rfl
    have hstart : machine.host.outputs = .empty := outputs_hostFor invocation
    rw [houtputs, hcalls, hstart, NameMap.get?_putAll]
    exact Option.or_none
  · have hsetUp : call.before.host.setUp = (hostFor invocation).setUp := by
      rw [hcalls] at hc
      exact operation.setUp_calls machine call hc
    rw [hhost] at hsetUp
    exact call.writeBytes_of_kept? (congrArg SetUp.write hsetUp) (congrArg SetUp.redirect hsetUp) hk
  · have hdisk : (outcome invocation sources disk).disk = _ := operation.disk_perform machine rfl
    rw [execute_of_sources h, disk_finish, hdisk, hcalls]

/-- How the tool ends with `--print`, against how it ends without. -/
structure Agrees (invocation : Invocation) (stdin : ByteArray) (disk : Disk) (written printed : Exit) :
    Prop where
  errors : printed.errors = written.errors
  status : printed.status = written.status
  untouched : printed.disk = disk
  same : invocation.stdin = true → printed = written
  silent : invocation.stdin = false → written.output = ""
  files : invocation.stdin = false → ∃ outputs : NameMap String,
    printed.output = String.join outputs.values ∧ Leaves invocation stdin disk outputs written

theorem agrees_of_no_sources (h : sources? invocation stdin disk = none) :
    Agrees invocation stdin disk (execute invocation stdin disk)
      (execute { invocation with print := true } stdin disk) := by
  obtain ⟨exit, hexit, houtput, hdisk, -⟩ := execute_of_no_sources h
  have hcalls : calls invocation stdin disk = [] := by rw [calls, h]
  have hleaves : Leaves invocation stdin disk .empty exit := by
    refine ⟨ordered_names _, fun sources compilation hs => ?_, fun name => ?_, fun call hc => ?_, ?_⟩
    · simp [h] at hs
    · rw [hcalls]
      rfl
    · simp [hcalls] at hc
    · rw [hcalls]
      exact hdisk
  rw [hexit true, hexit invocation.print]
  exact ⟨rfl, rfl, hdisk, fun _ => rfl, fun _ => houtput, fun _ => ⟨.empty, houtput, hleaves⟩⟩

/-- What is printed of files is what the host of the run has recorded. -/
theorem output_of_result {kept : Outcome Compilation} (hs : invocation.stdin = false)
    (hresult : kept.result = (outcome invocation sources disk).result) :
    (finish kept (printed { invocation with print := true } kept)).output =
      String.join (outcome invocation sources disk).host.outputs.values := by
  cases hr : (outcome invocation sources disk).result with
  | ok compilation =>
    have houtputs : compilation.outputs = (outcome invocation sources disk).host.outputs :=
      Engine.outputs_of_ok hr
    rw [hr] at hresult
    rw [← houtputs]
    simp [finish, printed, hresult, hs]
  | error failure =>
    -- A run that fails has been refused before it could record anything.
    obtain ⟨known, hrefused⟩ :=
      Engine.verbatim.exists_run_eq_of_refused (Engine.result_eq_error_iff.1 hr)
    have hout : outcome invocation sources disk = _ := hrefused
    rw [hr] at hresult
    simp only [finish, hresult, hout, outputs_hostFor]
    rfl

theorem agrees_of_sources (hp : invocation.print = false)
    (h : sources? invocation stdin disk = some sources)
    (hw : ∀ call ∈ calls invocation stdin disk, call.error? = none) :
    Agrees invocation stdin disk (execute invocation stdin disk)
      (execute { invocation with print := true } stdin disk) := by
  let kept := Engine.verbatim.run ((settings invocation).request sources)
    ((hostFor invocation).writing .string) disk
  obtain ⟨hresult, hreports, hdisk⟩ :
      kept.result = (outcome invocation sources disk).result ∧
        kept.reports = (outcome invocation sources disk).reports ∧ kept.disk = disk :=
    run_writing_string (by rwa [calls_of_sources h] at hw)
  have hprinted : execute { invocation with print := true } stdin disk =
      finish kept (printed { invocation with print := true } kept) := by
    have hkept : outcome { invocation with print := true } sources disk = kept := by
      rw [outcome, hostFor_printing]
      rfl
    rw [← hkept]
    exact execute_of_sources h
  obtain ⟨herrors, hstatus⟩ := finish_congr hresult hreports
  constructor
  case errors =>
    rw [hprinted, execute_of_sources h]
    exact herrors
  case status =>
    rw [hprinted, execute_of_sources h]
    exact hstatus
  case untouched => rw [hprinted, disk_finish, hdisk]
  case same =>
    intro hs
    simp only [execute, hs, if_true]
    rfl
  case silent =>
    intro hs
    rw [execute_of_sources h]
    exact output_finish_of_silent fun compilation => by simp [printed, hs, hp]
  case files =>
    intro hs
    refine ⟨_, ?_, leaves_of_sources hs hp h⟩
    rw [hprinted]
    exact output_of_result hs hresult

/-- What the tool reports is what its run has to report, phase by phase and line by line, and it
ends with success just if that is nothing and there is no error. With `--print`, in front of the
arguments or wherever else it is taken, it reports the same and ends in the same way as without, if
no write fails then, and it leaves the disk alone. What it prints of files is the outputs that it
writes otherwise, in the order of the bytes of their names, and without the flag it prints nothing.
-/
theorem printing_agrees_with_writing (stdin : ByteArray) (disk : Disk) :
    (∀ arguments invocation, Invocation.parse arguments = .run invocation →
      Reported invocation stdin disk (run arguments stdin disk)) ∧
    ∀ plain invocation, Invocation.parse plain = .run invocation → invocation.print = false →
      Invocation.parse ("--print" :: plain) = .run { invocation with print := true } ∧
      ((∀ call ∈ calls invocation stdin disk, call.error? = none) →
        ∀ printing, Invocation.parse printing = .run { invocation with print := true } →
          Agrees invocation stdin disk (run plain stdin disk) (run printing stdin disk)) := by
  have hrun {arguments : List String} {invocation : Invocation}
      (h : Invocation.parse arguments = .run invocation) :
      run arguments stdin disk = execute invocation stdin disk := by
    rw [run, h]
  constructor
  · intro arguments invocation h
    rw [hrun h]
    exact reported_execute invocation stdin disk
  · intro plain invocation h hp
    refine ⟨Invocation.parse_printing h hp, fun hw printing hflag => ?_⟩
    rw [hrun h, hrun hflag]
    cases hs : sources? invocation stdin disk with
    | none => exact agrees_of_no_sources hs
    | some sources => exact agrees_of_sources hp hs hw

/-- A disk with two sources, of which one refers to a file that does not exist. -/
def danglingDisk : Disk := ⟨.directory [
  ("a.ts", .file "/// <reference path='gone.ts'/>\nvar a;\n".toUTF8),
  ("b.ts", .file "var b;\n".toUTF8), ("lib.d.ts", .file "".toUTF8)], .root⟩

theorem printing_agrees_with_writing_dangling :
    let plain := ["--no-type-check", "--lib", "lib.d.ts", "b.ts", "a.ts"]
    let written := run plain .empty danglingDisk
    let printed := run ("--print" :: plain) .empty danglingDisk
    written.errors = "a.ts(1,1): error TS6053: File 'gone.ts' not found.\n" ∧
    printed.errors = written.errors ∧ printed.status = written.status ∧ written.status ≠ 0 ∧
    printed.disk = danglingDisk ∧ written.output = "" ∧
    ∃ outputs : NameMap String, printed.output = String.join outputs.values ∧
      outputs.get? "a.js" = some "/// <reference path='gone.ts'/>\nvar a;\n" ∧
      outputs.get? "b.js" = some "var b;\n" ∧ outputs.get? "b.ts" = none := by
  intro plain written printed
  let invocation : Invocation := {
    inputs := ["b.ts", "a.ts"], library := some "lib.d.ts", noTypeCheck := true }
  have hparse : Invocation.parse plain = .run invocation := by decide +kernel
  have hcalls : ∀ call ∈ calls invocation .empty danglingDisk, call.error? = none := by
    have hall : (calls invocation .empty danglingDisk).all (·.error?.isNone) = true := by
      decide +kernel
    simpa using hall
  obtain ⟨hreported, hagree⟩ := printing_agrees_with_writing .empty danglingDisk
  obtain ⟨hflag, hsame⟩ := hagree plain invocation hparse rfl
  have hagrees := hsame hcalls ("--print" :: plain) hflag
  obtain ⟨outputs, hprinted, hleaves⟩ := hagrees.files rfl
  refine ⟨by decide +kernel, hagrees.errors, hagrees.status, ?_, hagrees.untouched, hagrees.silent rfl,
    outputs, hprinted, ?_⟩
  · rw [ne_eq, (hreported plain invocation hparse).status]
    have hsources : sources? invocation .empty danglingDisk = some [.file "b.ts", .file "a.ts"] := by
      decide +kernel
    rintro (⟨hidle, -⟩ | ⟨sources, compilation, hs, -, hseen⟩)
    · simp [invocation] at hidle
    · obtain rfl := Option.some.inj (hsources.symm.trans hs)
      revert hseen
      decide +kernel
  · have hkept : (calls invocation .empty danglingDisk).filterMap Call.kept? =
        [("b.js", "var b;\n"), ("a.js", "/// <reference path='gone.ts'/>\nvar a;\n")] := by
      decide +kernel
    simp only [hleaves.last, hkept]
    decide

end Tool

end ScriptHost
