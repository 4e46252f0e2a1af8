import ScriptHost.Proofs.Host.Operation

/-! The sources of a host after any operations: what was registered, in the order in which it first
was, and what a read finds of it. -/

namespace ScriptHost

variable {entries : List (String × String)} {names : List String} {request : Request}
  {host : Host} {machine : Machine} {name : String} {disk : Disk}

/-- Names that are added one after another stand where they first occur. -/
theorem addNames_eq_eraseDups (names more : List String) :
    addNames names more = names ++ (more.filter (· ∉ names)).eraseDups := by
  induction more generalizing names with
  | nil => simp [addNames]
  | cons name more ih =>
    by_cases hm : name ∈ names
    · have hskip : addNames names (name :: more) = addNames names more := by
        rw [addNames, List.foldl_cons, if_pos hm, ← addNames]
      rw [hskip, ih, List.filter_cons_of_neg (by simpa using hm)]
    · have hadd : addNames names (name :: more) = addNames (names ++ [name]) more := by
        rw [addNames, List.foldl_cons, if_neg hm, ← addNames]
      have hrest : more.filter (· ∉ names ++ [name]) =
          (more.filter (· ∉ names)).filter (fun other => !other == name) := by
        rw [List.filter_filter]
        refine List.filter_congr fun other _ => ?_
        by_cases he : other = name <;> simp [he]
      rw [hadd, ih, hrest, List.filter_cons_of_pos (by simpa using hm), List.eraseDups_cons,
        List.append_assoc, List.singleton_append]

/-- A run that is not refused registers the texts of its request if the host reads strings. -/
theorem registry_entered (machine : Machine) (request : Request) :
    (machine.entered request).host.registry =
      (machine.host.addSources
        (if machine.host.readsFrom = .string then request.texts else [])).registry := by
  obtain ⟨directory, hd⟩ :=
    exists_currentDirectory_eq machine.host.forgetDirectories machine.disk
  let asked : Host := { machine.host.forgetDirectories with directory := directory }
  have hasked : asked.registry = machine.host.registry := rfl
  have hreads : asked.readsFrom = machine.host.readsFrom := rfl
  rw [Machine.entered, Request.enter, hd]
  cases hr : machine.host.readsFrom with
  | file =>
    have hkept : request.register asked = asked := Request.register_of_file (hreads.trans hr)
    rw [if_neg (by decide)]
    exact (congrArg Host.registry hkept).trans hasked
  | string =>
    rw [Request.register_of_string (hreads.trans hr), if_pos rfl]
    exact Host.registry_addSources_congr hasked _

namespace Operation

/-- What an operation registers: one source, or the texts of a run that is not refused on a host
that reads strings, where only a name that is given twice can be the reason for a refusal. -/
def registers (machine : Machine) : Operation → List (String × String)
  | addSource name contents => [(name, contents)]
  | addText contents counter => [(counter.next.1, contents)]
  | compile _ request =>
    if machine.host.readsFrom = .string ∧ (request.sources.map Descriptor.name).Nodup then
      request.texts
    else []
  | _ => []

theorem registry_run (machine : Machine) (engine : Engine) (request : Request) :
    (machine.run engine request).host.registry =
      (machine.host.addSources ((compile engine request).registers machine)).registry := by
  by_cases hr : ∃ failure, request.Refused machine.host machine.disk failure
  · have hn : (compile engine request).registers machine = [] := by
      refine if_neg fun ⟨hs, hd⟩ => ?_
      rcases Request.exists_refused_iff.1 hr with h | ⟨h, -⟩ | ⟨h, -⟩
      · exact h hd
      · simp [hs] at h
      · simp [hs] at h
    obtain ⟨failure, hr⟩ := hr
    obtain ⟨-, known, hk⟩ := machine.run_of_refused engine hr
    rw [hk, hn]
    rfl
  · have hnone := not_exists.1 hr
    have hd : (request.sources.map Descriptor.name).Nodup := by
      by_contra hd
      exact hr (Request.exists_refused_iff.2 (.inl hd))
    have hserve : (machine.run engine request).host.registry =
        (machine.entered request).host.registry := by
      rw [(machine.run_of_not_refused engine hnone).2]
      exact Machine.part_serve_of_unchanged (fun machine => machine.host.registry)
        Call.registry_after _ _
    rw [hserve, registry_entered, registers]
    by_cases hs : machine.host.readsFrom = .string
    · rw [if_pos hs, if_pos ⟨hs, hd⟩]
    · rw [if_neg hs, if_neg fun h => hs h.1]

/-- An operation changes the sources by what it registers. -/
theorem registry_perform (operation : Operation) (machine : Machine) :
    (operation.perform machine).host.registry =
      (machine.host.addSources (operation.registers machine)).registry := by
  cases operation with
  | serve ask => exact Call.registry_after ⟨machine, ask⟩
  | compile engine request => exact registry_run machine engine request
  | _ => rfl

/-- Requests find the sources that their operation leaves behind. -/
theorem registry_calls (operation : Operation) (machine : Machine) :
    ∀ call ∈ operation.calls machine,
      call.before.host.registry = (operation.perform machine).host.registry := by
  cases operation with
  | serve ask =>
    intro call hc
    obtain rfl := List.mem_singleton.1 hc
    exact (Call.registry_after _).symm
  | compile engine request =>
    rw [calls, perform]
    by_cases hr : ∃ failure, request.Refused machine.host machine.disk failure
    · obtain ⟨failure, hr⟩ := hr
      rw [(machine.run_of_refused engine hr).1]
      simp
    · obtain ⟨hcalls, hrun⟩ := machine.run_of_not_refused engine (not_exists.1 hr)
      intro call hc
      rw [hcalls] at hc
      rw [hrun, Machine.part_serve_of_unchanged (fun machine => machine.host.registry)
        Call.registry_after]
      exact Machine.part_calls (fun machine => machine.host.registry) Call.registry_after _ _
        call hc
  | _ => simp [calls]

end Operation

namespace Machine

/-- What operations register, in their order. -/
def registersOf (machine : Machine) : List Operation → List (String × String)
  | [] => []
  | operation :: operations =>
    operation.registers machine ++ (operation.perform machine).registersOf operations

theorem registry_performAll (machine : Machine) (operations : List Operation) :
    (machine.performAll operations).host.registry =
      (machine.host.addSources (machine.registersOf operations)).registry := by
  induction operations generalizing machine with
  | nil => rfl
  | cons operation operations ih =>
    rw [registersOf, Host.addSources_append]
    exact (ih _).trans (Host.registry_addSources_congr (operation.registry_perform machine) _)

end Machine

/-- Every operation keeps the map of the sources and their order in step. -/
theorem Host.InStep.perform (h : machine.host.InStep) (operation : Operation) :
    (operation.perform machine).host.InStep :=
  (h.addSources (operation.registers machine)).of_registry (operation.registry_perform machine)

theorem Host.InStep.performAll (h : machine.host.InStep) (operations : List Operation) :
    (machine.performAll operations).host.InStep := by
  induction operations generalizing machine with
  | nil => exact h
  | cons operation operations ih => exact ih (h.perform operation)

/-- A text stays what it is until another one is registered under its name. -/
theorem Host.InStep.get?_perform (h : machine.host.InStep) {operation : Operation}
    (hn : name ∉ (operation.registers machine).map Prod.fst) :
    (operation.perform machine).host.sources.get? name = machine.host.sources.get? name := by
  have hnone : (operation.registers machine).reverse.lookup name = none := by
    rw [lookup_eq_none_iff_not_mem, List.map_reverse, List.mem_reverse]
    exact hn
  have hsources := congrArg Prod.fst (operation.registry_perform machine)
  rw [h.addSources_eq] at hsources
  exact (congrArg (NameMap.get? · name) hsources).trans
    ((NameMap.get?_putAll _ _ _).trans (by rw [hnone, Option.none_or]))

theorem answers_of_files (h : host.read = .files) (disk : Disk) (name : String) :
    disk.Answers name (host.readSource disk name) := by
  rw [Host.readSource, h]
  exact answers_readDisk disk name

theorem answers_of_library
    (h : FileName.normalize name = FileName.normalize host.defaultLibrary) (disk : Disk) :
    disk.Answers name (host.readSource disk name) := by
  have hl : host.isDefaultLibrary name = true := by simp [Host.isDefaultLibrary, h]
  rw [Host.readSource]
  cases host.read with
  | files => exact answers_readDisk disk name
  | strings fallback =>
    simp only [hl, if_true]
    exact answers_readDisk disk name

theorem readSource_of_strings {fallback : Bool} (h : host.read = .strings fallback)
    (hl : FileName.normalize name ≠ FileName.normalize host.defaultLibrary) (disk : Disk) :
    host.readSource disk name =
      match host.sources.get? name with
      | some text => .ok (some text)
      | none => if fallback then Host.readDisk disk name else .ok none := by
  have hl' : ¬ host.isDefaultLibrary name = true := by simpa [Host.isDefaultLibrary] using hl
  rw [Host.readSource, h]
  exact if_neg hl'

/-- Requests get the answers that a host gives once their operation has come to its end. -/
theorem readSource_calls (operation : Operation) (machine : Machine) (disk : Disk) :
    ∀ call ∈ operation.calls machine,
      call.before.host.readSource disk = (operation.perform machine).host.readSource disk := by
  intro call hc
  have hsources := congrArg Prod.fst (operation.registry_calls machine call hc)
  have hsetUp : call.before.host.setUp = (operation.perform machine).host.setUp := by
    rw [operation.setUp_calls machine call hc]
    cases operation with
    | serve ask => exact (Call.setUp_after ⟨machine, ask⟩).symm
    | compile engine request => exact (machine.setUp_run engine request).symm
    | _ => simp [Operation.calls] at hc
  exact Host.readSource_congr (congrArg SetUp.read hsetUp) hsources
    (congrArg (fun setUp => setUp.configuration.defaultLibrary) hsetUp) disk

/-- The sources of a new host after any operations, and what reads find of them. They are what was
registered, each name once where it first was, and each with the text that it was last given, until
that name is registered again. A host that reads strings has these texts for their exact names, and
looks up the rest on disk if it falls back on it; a host that reads files has only the disk; and the
library, however it is spelled, is on disk for both. The requests of an operation are answered as
the host would answer once it has come to its end. -/
theorem registered_sources_stay_and_are_served (configuration : Configuration) (disk : Disk)
    (operations : List Operation) :
    let start : Machine := ⟨{ configuration := configuration }, disk⟩
    let after := start.performAll operations
    let entries := start.registersOf operations
    let strategy := Machine.lastSet Operation.strategy? .files operations
    (after.host.sourceNames.Nodup ∧
      after.host.sourceNames = (entries.map Prod.fst).eraseDups ∧
      ∀ name, name ∈ after.host.sourceNames ↔ name ∈ after.host.sources.names) ∧
    (∀ name, after.host.sources.get? name = entries.reverse.lookup name) ∧
    (∀ (operation : Operation) (name : String),
      name ∉ (operation.registers after).map Prod.fst →
        (operation.perform after).host.sources.get? name = after.host.sources.get? name) ∧
    (∀ (now : Disk) (name : String),
      let library := FileName.normalize name = FileName.normalize configuration.defaultLibrary
      let answer := after.host.readSource now name
      (strategy = .files ∨ library → now.Answers name answer) ∧
      (∀ fallback, strategy = .strings fallback → ¬ library →
        (∀ text, entries.reverse.lookup name = some text → answer = .ok (some text)) ∧
        (entries.reverse.lookup name = none → fallback = true → now.Answers name answer) ∧
        (entries.reverse.lookup name = none → fallback = false → answer = .ok none))) ∧
    ∀ (operation : Operation) (now : Disk), ∀ call ∈ operation.calls after,
      call.before.host.readSource now = (operation.perform after).host.readSource now := by
  intro start after entries strategy
  have hempty : start.host.InStep := Host.inStep_of_empty rfl rfl
  have hregistry : after.host.registry = (start.host.addSources entries).registry :=
    start.registry_performAll operations
  have hstep : after.host.InStep := hempty.performAll operations
  rw [hempty.addSources_eq] at hregistry
  obtain ⟨hsources, hnames⟩ := Prod.mk.inj hregistry
  have hregistered (name : String) :
      after.host.sources.get? name = entries.reverse.lookup name := by
    rw [hsources, NameMap.get?_putAll]
    exact Option.or_none
  have hread : after.host.read = strategy := start.read_performAll operations
  have hlibrary : after.host.defaultLibrary = configuration.defaultLibrary :=
    congrArg Configuration.defaultLibrary (start.configuration_performAll operations)
  refine ⟨⟨hstep.nodup, ?_, hstep.mem_iff⟩, hregistered, fun operation name => hstep.get?_perform,
    fun now name => ?_, fun operation now => readSource_calls operation after now⟩
  · rw [hnames, addNames_eq_eraseDups]
    simp [start]
  · intro library answer
    refine ⟨?_, fun fallback hs hl => ?_⟩
    · rintro (hs | hl)
      · exact answers_of_files (hread.trans hs) now name
      · exact answers_of_library (hlibrary ▸ hl) now
    · have hanswer : answer = _ := readSource_of_strings (hread.trans hs) (hlibrary ▸ hl) now
      rw [hregistered] at hanswer
      refine ⟨fun text ht => ?_, fun hn hf => ?_, fun hn hf => ?_⟩
      · rw [hanswer, ht]
      · have hfound : answer = Host.readDisk now name := by simp only [hanswer, hn, hf, if_true]
        exact hfound ▸ answers_readDisk now name
      · rw [hanswer, hn, hf]
        rfl

/-- A source before the host reads strings, a run that registers two, and one that is refused. -/
def registeringOperations : List Operation := [
  .addSource "b.ts" "var old;", .readFrom (.strings true), .writeTo .string,
  .compile Engine.verbatim {
    sources := [.string "a.ts" "var a;", .string "b.ts" "var b;"]
    arguments := .parsed { options := { noLib := true } } },
  .compile Engine.verbatim { sources := [.string "c.ts" "", .string "c.ts" "var c;"] },
  .addText "var d;" ⟨1⟩]

theorem registered_sources_stay_and_are_served_registering :
    let disk : Disk := ⟨.directory [("c.ts", .file "\uFEFFvar disk;".toUTF8)], .root⟩
    let start : Machine := ⟨{ configuration := {} }, disk⟩
    let after := start.performAll registeringOperations
    after.host.sourceNames = ["b.ts", "a.ts", "input_string2.ts"] ∧
    after.host.readSource disk "b.ts" = .ok (some "var b;") ∧
    after.host.readSource disk "./c.ts" = .ok (some "var disk;") ∧
    after.host.readSource disk "gone.ts" = .ok none := by
  intro disk start after
  obtain ⟨⟨-, hnames, -⟩, -, -, hread, -⟩ :=
    registered_sources_stay_and_are_served {} disk registeringOperations
  have hentries : start.registersOf registeringOperations =
      [("b.ts", "var old;"), ("a.ts", "var a;"), ("b.ts", "var b;"),
        ("input_string2.ts", "var d;")] := by decide +kernel
  refine ⟨?_, ?_, ?_, ?_⟩
  · rw [hnames, hentries]
    decide
  · exact ((hread disk "b.ts").2 true rfl (by decide +kernel)).1 _ (by rw [hentries]; decide)
  · have hdisk := ((hread disk "./c.ts").2 true rfl (by decide +kernel)).2.1
      (by rw [hentries]; decide) rfl
    have htext : (disk.readText (FileName.normalize "./c.ts")).toOption =
        some "\uFEFFvar disk;" := by decide +kernel
    cases hr : disk.readText (FileName.normalize "./c.ts") with
    | error failure => simp [hr, Except.toOption] at htext
    | ok text =>
      obtain rfl : text = _ := by simpa [hr, Except.toOption] using htext
      exact hdisk.marked hr (by decide)
  · have hdisk := ((hread disk "gone.ts").2 true rfl (by decide +kernel)).2.1
      (by rw [hentries]; decide) rfl
    have hmissing : (match disk.readText (FileName.normalize "gone.ts") with
        | .error failure => some failure
        | .ok _ => none) = some .notFound := by decide +kernel
    cases hr : disk.readText (FileName.normalize "gone.ts") with
    | error failure =>
      obtain rfl : failure = _ := by simpa [hr] using hmissing
      exact hdisk.missing hr
    | ok text => simp [hr] at hmissing

end ScriptHost
