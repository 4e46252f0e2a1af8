import ScriptHost.Proofs.FixedHost
import ScriptHost.Proofs.NameMap
import ScriptHost.Host.Service

/-! Hosts of any kind: what a task asks them to write, and what they have recorded after it. -/

namespace ScriptHost

variable {α β State : Type}

/-- A host of any kind: its answer to a request in a state, and its state after that. -/
structure Server (State : Type) where
  read : State → (name : String) → ReadAnswer × State
  write : State → (name data : String) → (mark : Bool) → WriteAnswer × State
  directory : State → Except HostError String × State
  answer : State → (question : Query) → question.Answer

/-- A write that a task has asked for, and the answer to it. -/
structure Attempt where
  name : String
  data : String
  mark : Bool
  answer : WriteAnswer

namespace Attempt

/-- What was asked for. -/
def ask (attempt : Attempt) : Ask := .write attempt.name attempt.data attempt.mark

/-- Whether the write has failed. -/
def failed (attempt : Attempt) : Bool := !attempt.answer.isOk

/-- The output that the write has left, if it has not failed. -/
def kept? (attempt : Attempt) : Option (String × String) :=
  if attempt.failed then none else some (attempt.name, attempt.data)

end Attempt

namespace Server

variable (server : Server State)

/-- Serves a task to its end. -/
def serve : Task α → State → α × State
  | .done value, state => (value, state)
  | .read name next, state =>
    serve (next (server.read state name).1) (server.read state name).2
  | .write name data mark next, state =>
    serve (next (server.write state name data mark).1) (server.write state name data mark).2
  | .currentDirectory next, state =>
    serve (next (server.directory state).1) (server.directory state).2
  | .query question next, state => serve (next (server.answer state question)) state

/-- The writes that a task asks for until it ends, in its order. -/
def attempts : Task α → State → List Attempt
  | .done _, _ => []
  | .read name next, state =>
    attempts (next (server.read state name).1) (server.read state name).2
  | .write name data mark next, state =>
    ⟨name, data, mark, (server.write state name data mark).1⟩ ::
      attempts (next (server.write state name data mark).1) (server.write state name data mark).2
  | .currentDirectory next, state =>
    attempts (next (server.directory state).1) (server.directory state).2
  | .query question next, state => attempts (next (server.answer state question)) state

/-- A host keeps the outputs that it has when a write fails, and records any other write. No write
changes how it ends lines. -/
structure Records (outputs : State → NameMap String) : Prop where
  failed : ∀ state name data error, (server.write state name data false).1 = .error error →
    outputs (server.write state name data false).2 = outputs state
  written : ∀ state name data, (server.write state name data false).1 = .ok () →
    outputs (server.write state name data false).2 = (outputs state).insert name data
  newLine : ∀ state name data,
    server.answer (server.write state name data false).2 .newLine = server.answer state .newLine

variable {server}

theorem serve_bind (task : Task α) (next : α → Task β) (state : State) :
    server.serve (task.bind next) state =
      server.serve (next (server.serve task state).1) (server.serve task state).2 := by
  induction task generalizing state with
  | done value => rfl
  | read name k ih => exact ih _ _
  | write name data mark k ih => exact ih _ _
  | currentDirectory k ih => exact ih _ _
  | query question k ih => exact ih _ state

theorem attempts_bind (task : Task α) (next : α → Task β) (state : State) :
    server.attempts (task.bind next) state =
      server.attempts task state ++
        server.attempts (next (server.serve task state).1) (server.serve task state).2 := by
  induction task generalizing state with
  | done value => rfl
  | read name k ih => exact ih _ _
  | write name data mark k ih => exact congrArg (List.cons _) (ih _ _)
  | currentDirectory k ih => exact ih _ _
  | query question k ih => exact ih _ state

end Server

/-- Whether a request is to write a text without a byte order mark, or for the end of its lines. -/
def Ask.IsOutput : Ask → Prop
  | write _ _ mark => mark = false
  | query .newLine => True
  | _ => False

theorem Server.Records.newLine_serve {server : Server State} {outputs : State → NameMap String}
    (h : server.Records outputs) {task : Task α} (ht : task.Only Ask.IsOutput) (state : State) :
    server.answer (server.serve task state).2 .newLine = server.answer state .newLine := by
  induction task generalizing state with
  | done value => rfl
  | write name data mark k ih =>
    obtain ⟨rfl, hk⟩ := ht
    exact (ih _ (hk _) _).trans (h.newLine state name data)
  | query question k ih => exact ih _ (ht.2 _) state
  | read name k => exact ht.1.elim
  | currentDirectory k => exact ht.1.elim

/-- After a task that only writes outputs, the writes that have not failed are recorded, in their
order. -/
theorem Server.Records.outputs_serve {server : Server State} {outputs : State → NameMap String}
    (h : server.Records outputs) {task : Task α} (ht : task.Only Ask.IsOutput)
    (state : State) :
    outputs (server.serve task state).2 =
      (outputs state).putAll ((server.attempts task state).filterMap Attempt.kept?) := by
  induction task generalizing state with
  | done value => rfl
  | write name data mark k ih =>
    obtain ⟨rfl, hk⟩ := ht
    rw [Server.serve, Server.attempts, ih _ (hk _)]
    cases ha : (server.write state name data false).1 with
    | ok =>
      have hkept : Attempt.kept? ⟨name, data, false, .ok ()⟩ = some (name, data) := rfl
      rw [h.written state name data ha, List.filterMap_cons_some hkept]
      rfl
    | error error =>
      have hlost : Attempt.kept? ⟨name, data, false, .error error⟩ = none := rfl
      rw [h.failed state name data error ha, List.filterMap_cons_none hlost]
  | query question k ih => exact ih _ (ht.2 _) state
  | read name k => exact ht.1.elim
  | currentDirectory k => exact ht.1.elim

namespace Host

/-- A host and its disk as a host of any kind. -/
def server : Server (Host × Disk) where
  read state name := (state.1.readSource state.2 name, state)
  write state name data mark :=
    let written := state.1.writeFile state.2 name data mark
    (written.answer, written.host, written.disk)
  directory state := ((state.1.currentDirectory state.2).1, (state.1.currentDirectory state.2).2,
    state.2)
  answer state question := state.1.answer question

theorem serve_server (task : Task α) (host : Host) (disk : Disk) :
    server.serve task (host, disk) =
      ((host.serve task disk).answer, (host.serve task disk).host,
        (host.serve task disk).disk) := by
  induction task generalizing host disk with
  | done value => rfl
  | read name k ih => exact ih _ host disk
  | write name data mark k ih => exact ih _ _ _
  | currentDirectory k ih => exact ih _ _ disk
  | query question k ih => exact ih _ host disk

/-- Making directories changes nothing of a host but which directories it knows. -/
theorem exists_ensureDirectories_eq (host : Host) (disk : Disk) (directories : List String) :
    ∃ known, (host.ensureDirectories disk directories).host = { host with known := known } := by
  induction directories generalizing host disk with
  | nil => exact ⟨host.known, rfl⟩
  | cons directory outer ih =>
    obtain ⟨known, ho⟩ := ih host disk
    rw [ensureDirectories]
    split
    · exact ⟨host.known, rfl⟩
    · split
      · exact ⟨_, rfl⟩
      · split
        · rename_i he
          rw [he] at ho
          exact ⟨known, ho⟩
        · rename_i made _ he
          rw [he] at ho
          obtain rfl : made = { host with known := known } := ho
          split
          · exact ⟨_, rfl⟩
          · split
            · exact ⟨_, rfl⟩
            · exact ⟨known, rfl⟩

theorem exists_writeDisk_eq (host : Host) (disk : Disk) (name data : String) (mark : Bool) :
    ∃ known, (host.writeDisk disk name data mark).host = { host with known := known } := by
  obtain ⟨known, ho⟩ := exists_ensureDirectories_eq host disk
    (FileName.enclosing (FileName.normalize name))
  refine ⟨known, ?_⟩
  cases he : host.ensureDirectories disk (FileName.enclosing (FileName.normalize name)) with
  | mk answer after made =>
    rw [he] at ho
    cases answer with
    | error error => simpa only [writeDisk, he] using ho
    | ok =>
      simp only [writeDisk, he]
      cases made.writeBytes (FileName.normalize name) (Text.withByteOrderMark mark data).toUTF8 with
      | ok later => exact ho
      | error failure => exact ho

/-- What a redirect receives of a write, if there is one. -/
def passed (host : Host) (name data : String) (mark : Bool) : List Forwarded :=
  host.redirect.toList.map (⟨·, name, data, mark⟩)

theorem forward_eq (host : Host) (name data : String) (mark : Bool) :
    host.forward name data mark =
      { host with forwarded := host.forwarded ++ host.passed name data mark } := by
  unfold forward
  split
  · rename_i redirect hr
    have hp : host.passed name data mark = [⟨redirect, name, data, mark⟩] := by simp [passed, hr]
    rw [hp]
  · rename_i hr
    have hp : host.passed name data mark = [] := by simp [passed, hr]
    rw [hp, List.append_nil]

/-- What is recorded of a write: its text, with its byte order mark if it goes to files. -/
def recorded (host : Host) (data : String) (mark : Bool) : String :=
  Text.withByteOrderMark (mark && host.write == .file) data

theorem recorded_unmarked (host : Host) (data : String) : host.recorded data false = data := rfl

/-- A write is recorded and passed to a redirect, or it fails and leaves no trace but the
directories that it has made. Only files without a redirect go to disk, and only there can a write
fail. -/
theorem writeFile_cases (host : Host) (disk : Disk) (name data : String) (mark : Bool) :
    let written := host.writeFile disk name data mark
    let ondisk := host.write = .file ∧ host.redirect = none
    (∃ known, written.answer = .ok () ∧ (¬ ondisk → written.disk = disk) ∧ written.host =
      { host with
        known := known, outputs := host.outputs.insert name (host.recorded data mark)
        forwarded := host.forwarded ++ host.passed name data mark }) ∨
    (∃ known error, ondisk ∧ written.answer = .error error ∧
      written.host = { host with known := known }) := by
  intro written ondisk
  have hmedium : host.write = .string ∨ host.write = .file := by cases host.write <;> simp
  rcases hmedium with hw | hw
  · have hwritten : written = ⟨.ok (), (host.record name data).forward name data mark, disk⟩ := by
      simp only [written, writeFile, hw]
    have hrecorded : host.recorded data mark = data := by
      simp [recorded, hw, Text.withByteOrderMark]
    rw [hwritten, forward_eq, hrecorded]
    exact .inl ⟨host.known, rfl, fun _ => rfl, rfl⟩
  · have hrecorded : host.recorded data mark = Text.withByteOrderMark mark data := by
      simp [recorded, hw]
    rw [hrecorded]
    rcases Option.eq_none_or_eq_some host.redirect with hr | ⟨redirect, hr⟩
    · have hondisk : ondisk := ⟨hw, hr⟩
      have hpassed : host.passed name data mark = [] := by simp [passed, hr]
      obtain ⟨known, hk⟩ := exists_writeDisk_eq host disk name data mark
      rw [hpassed, List.append_nil]
      cases hd : host.writeDisk disk name data mark with
      | mk answer after made =>
        rw [hd] at hk
        obtain rfl : after = { host with known := known } := hk
        cases answer with
        | ok =>
          have hwritten : written = ⟨.ok (), Host.record { host with known := known } name
              (Text.withByteOrderMark mark data), made⟩ := by
            simp [written, writeFile, hw, hr, hd]
          rw [hwritten]
          exact .inl ⟨known, rfl, fun h => (h hondisk).elim, rfl⟩
        | error error =>
          have hwritten : written = ⟨.error error, { host with known := known }, made⟩ := by
            simp [written, writeFile, hw, hr, hd]
          rw [hwritten]
          exact .inr ⟨known, error, hondisk, rfl, rfl⟩
    · have hwritten : written = ⟨.ok (), (host.forward name data mark).record name
          (Text.withByteOrderMark mark data), disk⟩ := by
        simp only [written, writeFile, hw, hr, Option.isSome_some, if_true]
      rw [hwritten, forward_eq]
      exact .inl ⟨host.known, rfl, fun _ => rfl, rfl⟩

/-- A write to disk that does not fail puts what is recorded of it into the file of its name, once
the directories of that file are made. -/
theorem writeBytes_of_writeFile {host : Host} {disk : Disk} {name data : String} {mark : Bool}
    (hm : host.write = .file) (hr : host.redirect = none)
    (h : (host.writeFile disk name data mark).answer = .ok ()) :
    ∃ made : Disk, made.writeBytes (FileName.normalize name) (host.recorded data mark).toUTF8 =
      .ok (host.writeFile disk name data mark).disk := by
  have hrecorded : host.recorded data mark = Text.withByteOrderMark mark data := by
    simp [recorded, hm]
  cases he : host.ensureDirectories disk (FileName.enclosing (FileName.normalize name)) with
  | mk answer after made =>
    cases answer with
    | error error => simp [writeFile, hm, hr, writeDisk, he] at h
    | ok =>
      refine ⟨made, ?_⟩
      rw [hrecorded]
      cases hw : made.writeBytes (FileName.normalize name)
          (Text.withByteOrderMark mark data).toUTF8 with
      | error failure => simp [writeFile, hm, hr, writeDisk, he, -String.toUTF8_eq_toByteArray, hw] at h
      | ok later => simp [writeFile, hm, hr, writeDisk, he, -String.toUTF8_eq_toByteArray, hw]

/-- A write fails and leaves the outputs alone, or it is recorded. -/
theorem outputs_writeFile (host : Host) (disk : Disk) (name data : String) :
    (∃ error, (host.writeFile disk name data false).answer = .error error ∧
      (host.writeFile disk name data false).host.outputs = host.outputs) ∨
    ((host.writeFile disk name data false).answer = .ok () ∧
      (host.writeFile disk name data false).host.outputs = host.outputs.insert name data) := by
  rcases host.writeFile_cases disk name data false with
    ⟨known, ha, -, hh⟩ | ⟨known, error, -, ha, hh⟩
  · exact .inr ⟨ha, by rw [hh, recorded_unmarked]⟩
  · exact .inl ⟨error, ha, by rw [hh]⟩

/-- In whatever way a host writes, it records its outputs. -/
theorem records_server : server.Records fun state => state.1.outputs where
  failed state name data error h := by
    have h' : (state.1.writeFile state.2 name data false).answer = .error error := h
    rcases outputs_writeFile state.1 state.2 name data with ⟨-, -, ho⟩ | ⟨ha, -⟩
    · exact ho
    · simp [ha] at h'
  written state name data h := by
    have h' : (state.1.writeFile state.2 name data false).answer = .ok () := h
    rcases outputs_writeFile state.1 state.2 name data with ⟨error, ha, -⟩ | ⟨-, ho⟩
    · simp [ha] at h'
    · exact ho
  newLine state name data := by
    change (state.1.writeFile state.2 name data false).host.newLine = state.1.newLine
    rcases state.1.writeFile_cases state.2 name data false with
      ⟨known, -, -, hh⟩ | ⟨known, error, -, -, hh⟩
    · rw [hh]
      rfl
    · rw [hh]
      rfl

end Host

end ScriptHost
