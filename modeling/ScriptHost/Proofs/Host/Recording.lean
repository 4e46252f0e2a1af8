import ScriptHost.Proofs.Host.Operation

/-! Outputs, redirects and disk after any operations: they follow from the writes alone, and so does
each from the same ones. -/

namespace ScriptHost

namespace Call

/-- The output that a request records: the text of a write that does not fail. -/
def kept? (call : Call) : Option (String × String) :=
  match call.ask, call.error? with
  | .write name data mark, none => some (name, call.before.host.recorded data mark)
  | _, _ => none

/-- What a redirect receives of a request: a write, if it is installed. -/
def received? (receiver : String) (call : Call) : Option Forwarded :=
  match call.ask with
  | .write name data mark =>
    if call.before.host.redirect = some receiver then some ⟨receiver, name, data, mark⟩ else none
  | _ => none

/-- The disk after a request that may go there. -/
def diskAfter (disk : Disk) (call : Call) : Disk := if call.toDisk then call.after.disk else disk

variable (call : Call) (receiver : String)

theorem filter_passed (host : Host) (name data : String) (mark : Bool) :
    (host.passed name data mark).filter (·.redirect = receiver) =
      (if host.redirect = some receiver then some (⟨receiver, name, data, mark⟩ : Forwarded)
        else none).toList := by
  unfold Host.passed
  cases host.redirect with
  | none => rfl
  | some other =>
    by_cases he : other = receiver
    · simp [he]
    · simp [he]

theorem outputs_after :
    call.after.host.outputs = call.before.host.outputs.putAll call.kept?.toList := by
  obtain ⟨⟨host, disk⟩, ask⟩ := call
  cases ask with
  | write name data mark =>
    rcases host.writeFile_cases disk name data mark with
      ⟨known, ha, -, hh⟩ | ⟨known, error, -, ha, hh⟩
    · simp only [after, kept?, error?, ha, hh]
      rfl
    · simp only [after, kept?, error?, ha, hh]
      rfl
  | currentDirectory =>
    obtain ⟨directory, hd⟩ := exists_currentDirectory_eq host disk
    simp only [after, kept?, hd]
    rfl
  | read name => rfl
  | query question => rfl

theorem forwarded_after : call.after.host.forwarded.filter (·.redirect = receiver) =
    call.before.host.forwarded.filter (·.redirect = receiver) ++
      (call.received? receiver).toList := by
  obtain ⟨⟨host, disk⟩, ask⟩ := call
  cases ask with
  | write name data mark =>
    rcases host.writeFile_cases disk name data mark with
      ⟨known, ha, -, hh⟩ | ⟨known, error, ⟨-, hr⟩, ha, hh⟩
    · simp only [after, received?, hh, List.filter_append, filter_passed]
    · simp [after, received?, hh, hr]
  | currentDirectory =>
    obtain ⟨directory, hd⟩ := exists_currentDirectory_eq host disk
    simp [after, received?, hd]
  | read name => simp [after, received?]
  | query question => simp [after, received?]

theorem disk_after_of_not_toDisk (h : call.toDisk = false) : call.after.disk = call.before.disk := by
  obtain ⟨⟨host, disk⟩, ask⟩ := call
  cases ask with
  | write name data mark =>
    have hn : ¬ (host.write = .file ∧ host.redirect = none) := by
      rintro ⟨hw, hr⟩
      simp [toDisk, hw, hr] at h
    rcases host.writeFile_cases disk name data mark with
      ⟨known, -, hd, -⟩ | ⟨known, error, ho, -, -⟩
    · exact hd hn
    · exact (hn ho).elim
  | currentDirectory => rfl
  | read name => rfl
  | query question => rfl

theorem disk_after : call.after.disk = diskAfter call.before.disk call := by
  unfold diskAfter
  cases h : call.toDisk with
  | false => exact call.disk_after_of_not_toDisk h
  | true => rfl

/-- A write that fails goes to disk, and leaves outputs and sources alone. -/
theorem after_of_error {error : HostError} (h : call.error? = some error) :
    call.toDisk = true ∧ call.after.host.outputs = call.before.host.outputs ∧
      call.after.host.sources = call.before.host.sources ∧
      call.after.host.sourceNames = call.before.host.sourceNames := by
  have hregistry := call.registry_after
  obtain ⟨⟨host, disk⟩, ask⟩ := call
  cases ask with
  | write name data mark =>
    rcases host.writeFile_cases disk name data mark with
      ⟨known, ha, -, -⟩ | ⟨known, other, ⟨hw, hr⟩, -, hh⟩
    · simp [error?, ha] at h
    · exact ⟨by simp [toDisk, hw, hr], by simp [after, hh], Prod.mk.inj hregistry⟩
  | currentDirectory => simp [error?] at h
  | read name => simp [error?] at h
  | query question => simp [error?] at h

/-- What is recorded of a write to files without a redirect is what the file of its name holds then.
-/
theorem writeBytes_of_kept? {name text : String}
    (hw : call.before.host.write = .file) (hr : call.before.host.redirect = none)
    (hk : call.kept? = some (name, text)) :
    ∃ made : Disk, made.writeBytes (FileName.normalize name) text.toUTF8 = .ok call.after.disk := by
  obtain ⟨⟨host, disk⟩, ask⟩ := call
  cases ask with
  | write other data mark =>
    cases ha : (host.writeFile disk other data mark).answer with
    | error error => simp [kept?, error?, ha] at hk
    | ok =>
      obtain ⟨rfl, rfl⟩ : other = name ∧ host.recorded data mark = text := by
        simpa [kept?, error?, ha] using hk
      exact host.writeBytes_of_writeFile hw hr ha
  | read _ => simp [kept?] at hk
  | currentDirectory => simp [kept?] at hk
  | query question => simp [kept?] at hk

end Call

theorem foldl_append_toList {α β : Type} (select : α → Option β) (items : List α) (start : List β) :
    items.foldl (fun chosen item => chosen ++ (select item).toList) start =
      start ++ items.filterMap select := by
  induction items generalizing start with
  | nil => simp
  | cons item items ih =>
    rw [List.foldl_cons, ih, List.append_assoc]
    cases hs : select item with
    | none => simp [hs]
    | some chosen => simp [hs]

theorem foldl_putAll_toList {α : Type} (select : α → Option (String × String)) (items : List α)
    (map : NameMap String) :
    items.foldl (fun map item => map.putAll (select item).toList) map =
      map.putAll (items.filterMap select) := by
  induction items generalizing map with
  | nil => rfl
  | cons item items ih =>
    rw [List.foldl_cons, ih]
    cases hs : select item with
    | none => rw [List.filterMap_cons_none hs]; rfl
    | some entry => rw [List.filterMap_cons_some hs]; rfl

theorem Operation.outputs_perform {operation : Operation} (machine : Machine)
    (ho : operation.isElsewhere = false) : (operation.perform machine).host.outputs =
      machine.host.outputs.putAll ((operation.calls machine).filterMap Call.kept?) := by
  rw [← foldl_putAll_toList]
  exact operation.part_perform (fun machine => machine.host.outputs)
    (fun map call => map.putAll call.kept?.toList) machine Call.outputs_after
    (fun _ _ _ h _ => h) ho

theorem Operation.disk_perform {operation : Operation} (machine : Machine)
    (ho : operation.isElsewhere = false) : (operation.perform machine).disk =
      (operation.calls machine).foldl Call.diskAfter machine.disk :=
  operation.part_perform Machine.disk Call.diskAfter machine Call.disk_after
    (fun _ _ _ _ _ => rfl) ho

theorem outputs_performAll (machine : Machine) (operations : List Operation) :
    (machine.performAll operations).host.outputs =
      machine.host.outputs.putAll ((machine.callsOf operations).filterMap Call.kept?) := by
  rw [← foldl_putAll_toList]
  exact machine.part_performAll (fun machine => machine.host.outputs)
    (fun map call => map.putAll call.kept?.toList) Call.outputs_after (fun _ _ h _ => h) operations

theorem forwarded_performAll (machine : Machine) (operations : List Operation) (receiver : String) :
    (machine.performAll operations).host.forwarded.filter (·.redirect = receiver) =
      machine.host.forwarded.filter (·.redirect = receiver) ++
        (machine.callsOf operations).filterMap (Call.received? receiver) := by
  rw [← foldl_append_toList]
  exact machine.part_performAll
    (fun machine => machine.host.forwarded.filter (·.redirect = receiver))
    (fun received call => received ++ (call.received? receiver).toList)
    (fun call => call.forwarded_after receiver) (fun _ _ _ h => by rw [h]) operations

/-- Outputs, redirects and disk after any operations on a new host. The outputs are what was last
written under each name without a failure, with a byte order mark just if it was asked for and the
write went to files. A redirect has received the writes that were made while it was installed, in
their order. The disk is what writes to files without a redirect have made of it, unless others have
changed it, and a write that fails changes nothing else. -/
theorem writes_tell_outputs_redirects_and_disk (configuration : Configuration) (disk : Disk)
    (operations : List Operation) :
    let start : Machine := ⟨{ configuration := configuration }, disk⟩
    let after := start.performAll operations
    let calls := start.callsOf operations
    (∀ name, after.host.outputs.get? name = (calls.filterMap Call.kept?).reverse.lookup name) ∧
    (∀ receiver, after.host.forwarded.filter (·.redirect = receiver) =
      calls.filterMap (Call.received? receiver)) ∧
    (∀ front operation back, operations = front ++ operation :: back →
      let machine := start.performAll front
      (∀ call ∈ operation.calls machine,
        call.before.host.write = Machine.lastSet Operation.medium? .file front ∧
        call.before.host.redirect = Machine.lastSet Operation.receiver? none front) ∧
      (operation.isElsewhere = false → (operation.perform machine).disk =
        (operation.calls machine).foldl Call.diskAfter machine.disk)) ∧
    ∀ call ∈ calls,
      (call.toDisk = false → call.after.disk = call.before.disk) ∧
      ∀ error, call.error? = some error → call.toDisk = true ∧
        call.after.host.outputs = call.before.host.outputs ∧
        call.after.host.sources = call.before.host.sources ∧
        call.after.host.sourceNames = call.before.host.sourceNames := by
  intro start after calls
  refine ⟨fun name => ?_, fun receiver => ?_, fun front operation back _ => ⟨?_, ?_⟩, ?_⟩
  · rw [outputs_performAll, NameMap.get?_putAll]
    exact Option.or_none
  · exact forwarded_performAll start operations receiver
  · intro call hc
    have hs := operation.setUp_calls (start.performAll front) call hc
    exact ⟨(congrArg SetUp.write hs).trans (start.write_performAll front),
      (congrArg SetUp.redirect hs).trans (start.redirect_performAll front)⟩
  · exact Operation.disk_perform _
  · exact fun call _ => ⟨call.disk_after_of_not_toDisk, fun _ => call.after_of_error⟩

/-- Writes to strings, to a redirect and to disk, the last of them under the name of a directory. -/
def mixedWrites : List Operation := [
  .writeTo .string, .serve (.write "a.js" "var a;" true), .redirect (some "log"), .writeTo .file,
  .serve (.write "b.js" "var b;" true), .redirect none, .serve (.write "out" "var c;" false)]

theorem writes_tell_outputs_redirects_and_disk_mixed :
    let disk : Disk := ⟨.directory [("out", .directory [])], .root⟩
    let start : Machine := ⟨{ configuration := {} }, disk⟩
    let after := start.performAll mixedWrites
    after.host.outputs.get? "a.js" = some "var a;" ∧
    after.host.outputs.get? "b.js" = some "\uFEFFvar b;" ∧
    after.host.outputs.get? "out" = none ∧
    after.host.forwarded.filter (·.redirect = "log") = [⟨"log", "b.js", "var b;", true⟩] ∧
    ∃ call ∈ start.callsOf mixedWrites, ∃ error, call.error? = some error ∧ call.toDisk = true := by
  intro disk start after
  obtain ⟨houtputs, hforwarded, -, hcalls⟩ :=
    writes_tell_outputs_redirects_and_disk {} disk mixedWrites
  obtain ⟨call, hc, he⟩ : ∃ call ∈ start.callsOf mixedWrites, call.error?.isSome = true := by
    decide +kernel
  obtain ⟨error, he⟩ := Option.isSome_iff_exists.1 he
  refine ⟨?_, ?_, ?_, ?_, call, hc, error, he, ((hcalls call hc).2 error he).1⟩
  · rw [houtputs]
    decide +kernel
  · rw [houtputs]
    decide +kernel
  · rw [houtputs]
    decide +kernel
  · rw [hforwarded]
    decide +kernel

end ScriptHost
