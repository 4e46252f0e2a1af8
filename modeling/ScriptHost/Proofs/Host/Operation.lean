import ScriptHost.Proofs.Compilation.Refused
import ScriptHost.Proofs.Host.Server

/-! A host in the hands of its owner: operations one after another, and the requests that are made
of it in the course of each. -/

namespace ScriptHost

/-- A host and the disk that it works on. -/
structure Machine where
  host : Host
  disk : Disk

/-- A request to a host, and what it finds. -/
structure Call where
  before : Machine
  ask : Ask

namespace Call

/-- What a request leaves behind. -/
def after (call : Call) : Machine :=
  match call.ask with
  | .write name data mark =>
    let written := call.before.host.writeFile call.before.disk name data mark
    ⟨written.host, written.disk⟩
  | .currentDirectory => ⟨(call.before.host.currentDirectory call.before.disk).2, call.before.disk⟩
  | .read _ => call.before
  | .query _ => call.before

/-- The error of a write that fails. -/
def error? (call : Call) : Option HostError :=
  match call.ask with
  | .write name data mark =>
    match (call.before.host.writeFile call.before.disk name data mark).answer with
    | .ok _ => none
    | .error error => some error
  | _ => none

/-- Whether a request is a write that goes to disk. -/
def toDisk (call : Call) : Bool :=
  match call.ask with
  | .write _ _ _ => call.before.host.write == .file && call.before.host.redirect.isNone
  | _ => false

variable (call : Call)

/-- No request changes anything of a host but its outputs, what its redirects have received, and
what it knows of directories. -/
theorem exists_after_eq : ∃ outputs forwarded directory known, call.after.host =
    { call.before.host with
      outputs := outputs, forwarded := forwarded, directory := directory, known := known } := by
  obtain ⟨⟨host, disk⟩, ask⟩ := call
  cases ask with
  | write name data mark =>
    rcases host.writeFile_cases disk name data mark with
      ⟨known, -, -, hh⟩ | ⟨known, error, -, -, hh⟩
    · exact ⟨_, _, host.directory, known, hh⟩
    · exact ⟨host.outputs, host.forwarded, host.directory, known, hh⟩
  | currentDirectory =>
    obtain ⟨directory, hd⟩ := exists_currentDirectory_eq host disk
    exact ⟨host.outputs, host.forwarded, directory, host.known, hd⟩
  | read name => exact ⟨host.outputs, host.forwarded, host.directory, host.known, rfl⟩
  | query question => exact ⟨host.outputs, host.forwarded, host.directory, host.known, rfl⟩

end Call

namespace Machine

variable {α β : Type}

/-- The host and the disk once a task has been served. -/
def serve (machine : Machine) (task : Task α) : Machine :=
  ⟨(machine.host.serve task machine.disk).host, (machine.host.serve task machine.disk).disk⟩

/-- The requests that a task makes until it ends, in their order. -/
def calls (machine : Machine) : Task α → List Call
  | .done _ => []
  | .read name next =>
    ⟨machine, .read name⟩ ::
      machine.calls (next (machine.host.readSource machine.disk name))
  | .write name data mark next =>
    ⟨machine, .write name data mark⟩ ::
      (Call.after ⟨machine, .write name data mark⟩).calls
        (next (machine.host.writeFile machine.disk name data mark).answer)
  | .currentDirectory next =>
    ⟨machine, .currentDirectory⟩ ::
      (Call.after ⟨machine, .currentDirectory⟩).calls
        (next (machine.host.currentDirectory machine.disk).1)
  | .query question next =>
    ⟨machine, .query question⟩ :: machine.calls (next (machine.host.answer question))

theorem calls_bind (machine : Machine) (task : Task α) (next : α → Task β) :
    machine.calls (task.bind next) = machine.calls task ++
      (machine.serve task).calls (next (machine.host.serve task machine.disk).answer) := by
  induction task generalizing machine with
  | done value => rfl
  | read name k ih => exact congrArg (List.cons _) (ih _ machine)
  | write name data mark k ih => exact congrArg (List.cons _) (ih _ _)
  | currentDirectory k ih => exact congrArg (List.cons _) (ih _ _)
  | query question k ih => exact congrArg (List.cons _) (ih _ machine)

variable (part : Machine → β) (step : β → Call → β)

/-- What each request changes in a known way, a task changes by its requests. -/
theorem part_serve (h : ∀ call : Call, part call.after = step (part call.before) call)
    (machine : Machine) (task : Task α) :
    part (machine.serve task) = (machine.calls task).foldl step (part machine) := by
  induction task generalizing machine with
  | done value => rfl
  | read name k ih =>
    exact (ih _ machine).trans (congrArg (List.foldl step · _) (h ⟨machine, .read name⟩))
  | write name data mark k ih =>
    exact (ih _ _).trans (congrArg (List.foldl step · _) (h ⟨machine, .write name data mark⟩))
  | currentDirectory k ih =>
    exact (ih _ _).trans (congrArg (List.foldl step · _) (h ⟨machine, .currentDirectory⟩))
  | query question k ih =>
    exact (ih _ machine).trans (congrArg (List.foldl step · _) (h ⟨machine, .query question⟩))

/-- What no request changes, all requests of a task find as it was. -/
theorem part_calls (h : ∀ call : Call, part call.after = part call.before) (machine : Machine)
    (task : Task α) : ∀ call ∈ machine.calls task, part call.before = part machine := by
  induction task generalizing machine with
  | done value => simp [calls]
  | read name k ih => exact List.forall_mem_cons.2 ⟨rfl, ih _ machine⟩
  | write name data mark k ih =>
    refine List.forall_mem_cons.2 ⟨rfl, fun call hc => ?_⟩
    exact (ih _ _ call hc).trans (h ⟨machine, .write name data mark⟩)
  | currentDirectory k ih =>
    refine List.forall_mem_cons.2 ⟨rfl, fun call hc => ?_⟩
    exact (ih _ _ call hc).trans (h ⟨machine, .currentDirectory⟩)
  | query question k ih => exact List.forall_mem_cons.2 ⟨rfl, ih _ machine⟩

theorem part_serve_of_unchanged (h : ∀ call : Call, part call.after = part call.before)
    (machine : Machine) (task : Task α) : part (machine.serve task) = part machine := by
  rw [part_serve part (fun value _ => value) h, List.foldl_fixed]

/-- A machine once a run has come to its end. -/
def run (machine : Machine) (engine : Engine) (request : Request) : Machine :=
  let outcome := engine.run request machine.host machine.disk
  ⟨outcome.host, outcome.disk⟩

/-- What an engine builds its program with. -/
def entered (machine : Machine) (request : Request) : Machine :=
  ⟨request.enter machine.host machine.disk, machine.disk⟩

/-- What is left to do of a run once its program has been built: nothing if a full check has met
early diagnostics, and to emit the program otherwise. -/
def finishing (request : Request) (errors : List Diagnostic) (program : Program) : Task Unit :=
  let full := request.configuration.fullTypeCheck
  if full = true ∧ errors ++ program.early ≠ [] then .done ()
  else (program.checker full).emit.bind fun _ => .done ()

/-- All that a run asks of its host once its sources are registered. -/
def driven (machine : Machine) (engine : Engine) (request : Request) : Task Unit :=
  let host := (machine.entered request).host
  let line := request.commandLine engine machine.host machine.disk
  (engine.build host.served (request.roots host line) line.options).bind
    (finishing request line.errors)

/-- The requests of an engine in a run, if it gets to the engine. -/
def runCalls (machine : Machine) (engine : Engine) (request : Request) : List Call :=
  match (engine.run request machine.host machine.disk).result with
  | .ok _ => (machine.entered request).calls (machine.driven engine request)
  | .error _ => []

variable {machine : Machine} {engine : Engine} {request : Request} {failure : CompileError}

theorem serve_finishing (request : Request) (errors : List Diagnostic) (program : Program)
    (machine : Machine) :
    machine.serve (finishing request errors program) =
      ⟨(Engine.finish request errors program machine.host machine.disk).host,
        (Engine.finish request errors program machine.host machine.disk).disk⟩ := by
  unfold finishing serve
  by_cases he : request.configuration.fullTypeCheck = true ∧ errors ++ program.early ≠ []
  · rw [if_pos he, Engine.finish_of_early request he.1 he.2]
    rfl
  · rw [if_neg he, Engine.finish_of_not_early request he, Host.serve_bind]
    rfl

theorem run_of_refused (machine : Machine) (engine : Engine)
    (h : request.Refused machine.host machine.disk failure) :
    machine.runCalls engine request = [] ∧
      ∃ known, machine.run engine request =
        ⟨{ machine.host with known := known }, machine.disk⟩ := by
  obtain ⟨known, hrun⟩ := Engine.exists_run_eq_of_refused engine h
  refine ⟨?_, known, ?_⟩
  · rw [runCalls, hrun]
  · rw [run, hrun]

/-- A run that is not refused is one task, which is served once its sources are registered. -/
theorem run_of_not_refused (machine : Machine) (engine : Engine)
    (h : ∀ failure, ¬ request.Refused machine.host machine.disk failure) :
    machine.runCalls engine request =
        (machine.entered request).calls (machine.driven engine request) ∧
      machine.run engine request =
        (machine.entered request).serve (machine.driven engine request) := by
  obtain ⟨compilation, hc⟩ := Engine.ok_of_not_refused engine h
  refine ⟨by rw [runCalls, hc], ?_⟩
  obtain ⟨hf, directory, hd⟩ := Engine.enters_of_ok hc
  have hfinish := serve_finishing request
    (request.commandLine engine machine.host machine.disk).errors
    (engine.built request machine.host machine.disk).answer
    ⟨(engine.built request machine.host machine.disk).host,
      (engine.built request machine.host machine.disk).disk⟩
  unfold run
  rw [Engine.run_eq_finish hf hd, ← hfinish]
  unfold serve driven
  rw [Host.serve_bind]
  rfl

/-- A run that gets to its emission makes all requests of the emission. -/
theorem calls_emit_subset (machine : Machine) (engine : Engine)
    (h : ∀ failure, ¬ request.Refused machine.host machine.disk failure)
    (he : ¬ (request.configuration.fullTypeCheck = true ∧
      engine.early request machine.host machine.disk ≠ [])) :
    let built := engine.built request machine.host machine.disk
    Machine.calls ⟨built.host, built.disk⟩
      (built.answer.checker request.configuration.fullTypeCheck).emit ⊆
        machine.runCalls engine request := by
  intro built call hc
  rw [(machine.run_of_not_refused engine h).1, driven, calls_bind]
  refine List.mem_append_right _ ?_
  have hfinishing : finishing request
      (request.commandLine engine machine.host machine.disk).errors built.answer =
        (built.answer.checker request.configuration.fullTypeCheck).emit.bind fun _ => .done () :=
    if_neg he
  have hrest : call ∈ Machine.calls ⟨built.host, built.disk⟩ (finishing request
      (request.commandLine engine machine.host machine.disk).errors built.answer) := by
    rw [hfinishing, calls_bind]
    exact List.mem_append_left _ hc
  exact hrest

end Machine

/-- How the owner of a host has set it up: the library that it was made with, where it reads and
writes, and its redirect. -/
structure SetUp where
  configuration : Configuration
  read : ReadStrategy
  write : Medium
  redirect : Option String

/-- How a host is set up. -/
def Host.setUp (host : Host) : SetUp :=
  ⟨host.configuration, host.read, host.write, host.redirect⟩

theorem Call.setUp_after (call : Call) : call.after.host.setUp = call.before.host.setUp := by
  obtain ⟨_, _, _, _, h⟩ := call.exists_after_eq
  rw [h]
  rfl

theorem Call.registry_after (call : Call) :
    call.after.host.registry = call.before.host.registry := by
  obtain ⟨_, _, _, _, h⟩ := call.exists_after_eq
  rw [h]
  rfl

namespace Machine

variable {machine : Machine} {engine : Engine} {request : Request}

theorem setUp_entered (machine : Machine) (request : Request) :
    (machine.entered request).host.setUp = machine.host.setUp := by
  obtain ⟨_, _, _, h⟩ := exists_enter_eq request machine.host machine.disk
  rw [entered, h]
  rfl

theorem setUp_run (machine : Machine) (engine : Engine) (request : Request) :
    (machine.run engine request).host.setUp = machine.host.setUp := by
  by_cases hr : ∃ failure, request.Refused machine.host machine.disk failure
  · obtain ⟨failure, hr⟩ := hr
    obtain ⟨-, known, hk⟩ := machine.run_of_refused engine hr
    rw [hk]
    rfl
  · rw [(machine.run_of_not_refused engine (not_exists.1 hr)).2, ← setUp_entered machine request]
    exact part_serve_of_unchanged (fun machine => machine.host.setUp) Call.setUp_after _ _

/-- Every request of a run finds the host set up as it was. -/
theorem setUp_runCalls (machine : Machine) (engine : Engine) (request : Request) :
    ∀ call ∈ machine.runCalls engine request, call.before.host.setUp = machine.host.setUp := by
  by_cases hr : ∃ failure, request.Refused machine.host machine.disk failure
  · obtain ⟨failure, hr⟩ := hr
    rw [(machine.run_of_refused engine hr).1]
    simp
  · rw [(machine.run_of_not_refused engine (not_exists.1 hr)).1, ← setUp_entered machine request]
    exact part_calls (fun machine => machine.host.setUp) Call.setUp_after _ _

end Machine

/-- What the owner of a host does with it, and what others do with the disk in between. -/
inductive Operation where
  | readFrom (strategy : ReadStrategy)
  | writeTo (medium : Medium)
  | redirect (receiver : Option String)
  | addSource (name contents : String)
  | addText (contents : String) (counter : NameCounter)
  | serve (ask : Ask)
  | compile (engine : Engine) (request : Request)
  | elsewhere (disk : Disk)

namespace Operation

/-- What an operation makes of a machine. -/
def perform (machine : Machine) : Operation → Machine
  | readFrom strategy => { machine with host := { machine.host with read := strategy } }
  | writeTo medium => { machine with host := { machine.host with write := medium } }
  | redirect receiver => { machine with host := { machine.host with redirect := receiver } }
  | addSource name contents => { machine with host := machine.host.addSource name contents }
  | addText contents counter => { machine with host := (machine.host.addText contents counter).1 }
  | serve ask => Call.after ⟨machine, ask⟩
  | compile engine request => machine.run engine request
  | elsewhere disk => { machine with disk := disk }

/-- The requests that are made of a host in an operation. -/
def calls (machine : Machine) : Operation → List Call
  | serve ask => [⟨machine, ask⟩]
  | compile engine request => machine.runCalls engine request
  | _ => []

/-- Whether an operation is one of others on the disk. -/
def isElsewhere : Operation → Bool
  | elsewhere _ => true
  | _ => false

/-- Where the operation makes a host read from. -/
def strategy? : Operation → Option ReadStrategy
  | readFrom strategy => some strategy
  | _ => none

/-- Where the operation makes a host write to. -/
def medium? : Operation → Option Medium
  | writeTo medium => some medium
  | _ => none

/-- The redirect that the operation installs, or that there is none any more. -/
def receiver? : Operation → Option (Option String)
  | redirect receiver => some receiver
  | _ => none

variable {machine : Machine} {operation : Operation}

/-- An operation changes of how a host is set up what it is there to change. -/
theorem setUp_perform (operation : Operation) (machine : Machine) :
    (operation.perform machine).host.setUp =
      { machine.host.setUp with
        read := operation.strategy?.getD machine.host.read
        write := operation.medium?.getD machine.host.write
        redirect := operation.receiver?.getD machine.host.redirect } := by
  cases operation with
  | serve ask => exact Call.setUp_after ⟨machine, ask⟩
  | compile engine request => exact machine.setUp_run engine request
  | _ => rfl

theorem setUp_calls (operation : Operation) (machine : Machine) :
    ∀ call ∈ operation.calls machine, call.before.host.setUp = machine.host.setUp := by
  cases operation with
  | serve ask => simp [calls]
  | compile engine request => exact machine.setUp_runCalls engine request
  | _ => simp [calls]

variable {β : Type} (part : Machine → β) (step : β → Call → β)

/-- What each request changes in a known way, and nothing else does, an operation changes by its
requests. -/
theorem part_perform (operation : Operation) (machine : Machine)
    (h : ∀ call : Call, part call.after = step (part call.before) call)
    (hs : ∀ (host other : Host) (disk : Disk), other.outputs = host.outputs →
      other.forwarded = host.forwarded → part ⟨other, disk⟩ = part ⟨host, disk⟩)
    (ho : operation.isElsewhere = false) :
    part (operation.perform machine) = (operation.calls machine).foldl step (part machine) := by
  obtain ⟨host, disk⟩ := machine
  cases operation with
  | elsewhere other => simp [isElsewhere] at ho
  | serve ask => exact h ⟨⟨host, disk⟩, ask⟩
  | compile engine request =>
    by_cases hr : ∃ failure, request.Refused host disk failure
    · obtain ⟨failure, hr⟩ := hr
      obtain ⟨hcalls, known, hk⟩ := Machine.run_of_refused ⟨host, disk⟩ engine hr
      rw [perform, calls, hk, hcalls]
      exact hs _ _ _ rfl rfl
    · obtain ⟨hcalls, hrun⟩ :=
        Machine.run_of_not_refused ⟨host, disk⟩ engine (not_exists.1 hr)
      obtain ⟨directory, sources, names, he⟩ := exists_enter_eq request host disk
      have hentered : part (Machine.entered ⟨host, disk⟩ request) = part ⟨host, disk⟩ := by
        rw [Machine.entered, he]
        exact hs _ _ _ rfl rfl
      rw [perform, calls, hcalls, hrun, Machine.part_serve part step h, hentered]
  | readFrom strategy => exact hs _ _ _ rfl rfl
  | writeTo medium => exact hs _ _ _ rfl rfl
  | redirect receiver => exact hs _ _ _ rfl rfl
  | addSource name contents => exact hs _ _ _ rfl rfl
  | addText contents counter => exact hs _ _ _ rfl rfl

end Operation

namespace Machine

/-- A machine after operations one after another. -/
def performAll (machine : Machine) (operations : List Operation) : Machine :=
  operations.foldl Operation.perform machine

/-- The requests that are made in the course of operations, in their order. -/
def callsOf (machine : Machine) : List Operation → List Call
  | [] => []
  | operation :: operations =>
    operation.calls machine ++ (operation.perform machine).callsOf operations

/-- What the last operation that sets it has set, or what was there before if none does. -/
def lastSet {β : Type} (set? : Operation → Option β) (initial : β) (operations : List Operation) :
    β :=
  (operations.filterMap set?).getLast?.getD initial

variable {β : Type} (part : Machine → β) (step : β → Call → β) {set? : Operation → Option β}

theorem lastSet_cons (set? : Operation → Option β) (initial : β) (operation : Operation)
    (operations : List Operation) : lastSet set? initial (operation :: operations) =
      lastSet set? ((set? operation).getD initial) operations := by
  unfold lastSet
  cases hs : set? operation with
  | none => rw [List.filterMap_cons_none hs, Option.getD_none]
  | some value => rw [List.filterMap_cons_some hs, List.getLast?_cons, Option.getD_some,
      Option.getD_some]

/-- What each operation sets or leaves alone is as the last one that sets it has set it. -/
theorem part_performAll_of_set
    (h : ∀ (operation : Operation) (machine : Machine),
      part (operation.perform machine) = (set? operation).getD (part machine))
    (machine : Machine) (operations : List Operation) :
    part (machine.performAll operations) = lastSet set? (part machine) operations := by
  induction operations generalizing machine with
  | nil => rfl
  | cons operation operations ih =>
    rw [lastSet_cons, ← h operation machine]
    exact ih _

theorem read_performAll (machine : Machine) (operations : List Operation) :
    (machine.performAll operations).host.read =
      lastSet Operation.strategy? machine.host.read operations :=
  part_performAll_of_set (fun machine => machine.host.read)
    (fun operation machine => congrArg SetUp.read (operation.setUp_perform machine)) _ _

theorem write_performAll (machine : Machine) (operations : List Operation) :
    (machine.performAll operations).host.write =
      lastSet Operation.medium? machine.host.write operations :=
  part_performAll_of_set (fun machine => machine.host.write)
    (fun operation machine => congrArg SetUp.write (operation.setUp_perform machine)) _ _

theorem redirect_performAll (machine : Machine) (operations : List Operation) :
    (machine.performAll operations).host.redirect =
      lastSet Operation.receiver? machine.host.redirect operations :=
  part_performAll_of_set (fun machine => machine.host.redirect)
    (fun operation machine => congrArg SetUp.redirect (operation.setUp_perform machine)) _ _

theorem configuration_performAll (machine : Machine) (operations : List Operation) :
    (machine.performAll operations).host.configuration = machine.host.configuration := by
  induction operations generalizing machine with
  | nil => rfl
  | cons operation operations ih =>
    exact (ih _).trans (congrArg SetUp.configuration (operation.setUp_perform machine))

/-- What the requests change in a known way, and neither the owner nor others, operations change by
their requests. -/
theorem part_performAll (h : ∀ call : Call, part call.after = step (part call.before) call)
    (hs : ∀ machine other : Machine, other.host.outputs = machine.host.outputs →
      other.host.forwarded = machine.host.forwarded → part other = part machine)
    (machine : Machine) (operations : List Operation) :
    part (machine.performAll operations) =
      (machine.callsOf operations).foldl step (part machine) := by
  induction operations generalizing machine with
  | nil => rfl
  | cons operation operations ih =>
    have hfirst : part (operation.perform machine) =
        (operation.calls machine).foldl step (part machine) := by
      cases ho : operation.isElsewhere with
      | false =>
        exact operation.part_perform part step machine h
          (fun host other disk => hs ⟨host, disk⟩ ⟨other, disk⟩) ho
      | true =>
        cases operation with
        | elsewhere disk => exact hs machine _ rfl rfl
        | _ => simp [Operation.isElsewhere] at ho
    rw [callsOf, List.foldl_append, ← hfirst]
    exact ih _

end Machine

end ScriptHost
