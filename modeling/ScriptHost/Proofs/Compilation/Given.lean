import ScriptHost.Proofs.Compilation.Alike
import ScriptHost.Proofs.Compilation.Outputs

/-! Which of the texts that are given to a run in memory are compiled: they are registered as they
are spelled, and asked for in normal form. -/

namespace ScriptHost

variable {answers : FixedHost} {options : Options} {roots names : List String} {closure : Closure}
  {settings : Settings} {sources : List (String × String)} {disk : Disk} {name other text : String}

theorem exists_of_forall₂ {α β : Type} {related : α → β → Prop} {items : List α} {images : List β}
    {image : β} (h : List.Forall₂ related items images) (hm : image ∈ images) :
    ∃ item ∈ items, related item image := by
  induction h with
  | nil => simp at hm
  | @cons item first items images hfirst hrest ih =>
    rcases List.mem_cons.1 hm with rfl | hm
    · exact ⟨item, List.mem_cons_self, hfirst⟩
    · obtain ⟨other, ho, hr⟩ := ih hm
      exact ⟨other, List.mem_cons_of_mem _ ho, hr⟩

/-- A program says that nothing is found under a name that it asks for. -/
def Program.Misses (program : Program) (name : String) : Prop :=
  ∃ fault ∈ program.early, fault.category = .error ∧ fault.code = 6053 ∧
    fault.message = "File '" ++ name ++ "' not found."

theorem Closure.Sound.misses_iff (h : Sound answers options roots [] names closure) :
    (closure.program options).Misses name ↔ name ∈ names ∧ answers.read name = .ok none := by
  constructor
  · rintro ⟨fault, hf, -, hcode, hmessage⟩
    obtain ⟨asked, ha, hb⟩ := exists_of_forall₂ h.faults hf
    cases hb with
    | notFound answer _ _ hsaid =>
      have he : asked = name := by simpa [String.append_assoc] using hsaid.symm.trans hmessage
      exact he ▸ ⟨(List.mem_filter.1 ha).1, answer⟩
    | unreadable _ _ hother => exact absurd (hother.symm.trans hcode) (by decide)
  · rintro ⟨hs, hr⟩
    have hl : name ∈ names.filter (lacks answers) := List.mem_filter.2 ⟨hs, by simp [lacks, hr]⟩
    obtain ⟨fault, hf, hb⟩ := exists_of_forall₂ h.faults.flip hl
    cases hb with
    | notFound _ hcategory hcode hmessage => exact ⟨fault, hf, hcategory, hcode, hmessage⟩
    | unreadable answer => simp [hr] at answer

/-- Texts with different names are registered as they are given. -/
theorem enter_memoryHost (hn : (sources.map Prod.fst).Nodup) (disk : Disk) :
    (settings.requestFor sources).enter (Engine.memoryHost settings.configuration) disk =
      { Engine.memoryHost settings.configuration with
        sources := .ofList sources, sourceNames := sources.map Prod.fst } := by
  have hb : (Engine.memoryHost settings.configuration).forgetDirectories.InStep :=
    Host.inStep_of_empty rfl rfl
  have hnames : addNames [] (sources.map Prod.fst) = sources.map Prod.fst := addNames_of_nodup hn
  rw [Request.enter_in_memory _ (Host.inMemory_memoryHost _), texts_requestFor, hb.addSources_eq]
  exact congrArg (fun names => { Engine.memoryHost settings.configuration with
    sources := .ofList sources, sourceNames := names }) hnames

theorem fault?_requestFor {host : Host} (h : host.InMemory) (hn : (sources.map Prod.fst).Nodup) :
    (settings.requestFor sources).fault? host = none :=
  Request.fault?_in_memory h (names_ofEntry sources ▸ hn)

/-- The texts make no difference to the arguments of a run. -/
theorem commandLine_requestFor (settings : Settings) (sources others : List (String × String))
    (host : Host) (disk : Disk) :
    (settings.requestFor sources).commandLine Engine.verbatim host disk =
      (settings.requestFor others).commandLine Engine.verbatim host disk :=
  Request.commandLine_congr rfl rfl _ _

theorem options_requestFor (settings : Settings) (sources others : List (String × String))
    (host : Host) (disk : Disk) :
    (settings.requestFor sources).options host disk =
      (settings.requestFor others).options host disk :=
  congrArg CommandLine.options (commandLine_requestFor _ _ _ _ _)

theorem roots_requestFor (hn : (sources.map Prod.fst).Nodup) (disk : Disk) (line : CommandLine) :
    let request := settings.requestFor sources
    request.roots (request.enter (Engine.memoryHost settings.configuration) disk) line =
      addNames (sources.map Prod.fst) line.fileNames := by
  intro request
  have henter : request.enter (Engine.memoryHost settings.configuration) disk = _ :=
    enter_memoryHost hn disk
  rw [henter]
  exact Request.roots_of_strings rfl (medium_requestFor settings sources) line

/-- Whether a name is that of the default library, however it is spelled. -/
def Settings.NamesLibrary (settings : Settings) (name : String) : Prop :=
  FileName.normalize name = FileName.normalize settings.configuration.defaultLibrary

/-- A text that is given under a name is found under that spelling alone. -/
theorem readSource_enter (hn : (sources.map Prod.fst).Nodup)
    (hl : ¬ settings.NamesLibrary name) (disk : Disk) :
    ((settings.requestFor sources).enter (Engine.memoryHost settings.configuration)
      disk).readSource disk name = .ok (sources.lookup name) := by
  let host : Host := { Engine.memoryHost settings.configuration with
    sources := .ofList sources, sourceNames := sources.map Prod.fst }
  have hread : host.readSource disk name = .ok ((NameMap.ofList sources).get? name) := by
    refine (if_neg (mt beq_iff_eq.1 hl)).trans ?_
    cases (NameMap.ofList sources).get? name <;> rfl
  rw [enter_memoryHost hn, ← NameMap.get?_ofList hn]
  exact hread

theorem readSource_enter_library (hn : (sources.map Prod.fst).Nodup)
    (hl : settings.NamesLibrary name) (disk : Disk) :
    ((settings.requestFor sources).enter (Engine.memoryHost settings.configuration)
      disk).readSource disk name = Host.readDisk disk name := by
  rw [enter_memoryHost hn]
  exact if_pos (beq_iff_eq.2 hl)

/-- Every text that is given is asked for, under the normal form of its name. -/
theorem reached_of_given (hn : (sources.map Prod.fst).Nodup) (hm : name ∈ sources.map Prod.fst)
    (disk : Disk) (line : CommandLine) :
    let request := settings.requestFor sources
    let entered := request.enter (Engine.memoryHost settings.configuration) disk
    Reached (entered.answers disk) line.options (request.roots entered line)
      (FileName.normalize name) := by
  intro request entered
  refine .root ?_
  rw [roots_requestFor hn]
  exact subset_addNames hm

/-- A text that is given is compiled just when it is given under the normal form of its name; when
nothing is given under that name, it is missed. Here no name is that of the default library. -/
theorem given_compiled_iff (settings : Settings) (sources : List (String × String)) (disk : Disk)
    (hn : (sources.map Prod.fst).Nodup)
    (hl : ∀ name ∈ sources.map Prod.fst, ¬ settings.NamesLibrary name ∧
      ¬ settings.NamesLibrary (FileName.normalize name)) :
    let request := settings.requestFor sources
    let host := Engine.memoryHost settings.configuration
    let errors := (request.commandLine Engine.verbatim host disk).errors
    let program := settings.programFor sources disk
    (∃ compilation, (Engine.verbatim.compileStrings settings (sources.map Descriptor.ofEntry)
        disk).result = .ok compilation ∧
      compilation.diagnostics = (errors ++ program.early).map Diagnostic.render) ∧
    ∀ name text, (name, text) ∈ sources →
      let normal := FileName.normalize name
      (⟨normal, text⟩ ∈ program.sources ↔ (normal, text) ∈ sources) ∧
      (program.Misses normal ↔ normal ∉ sources.map Prod.fst) ∧ ¬ program.Misses name := by
  intro request host errors program
  have hf : request.fault? host = none :=
    Request.fault?_in_memory (Host.inMemory_memoryHost _) (names_ofEntry sources ▸ hn)
  have hprogram : program = (request.closure host disk).program (request.options host disk) :=
    congrArg Host.Served.answer (Request.built_verbatim request host disk)
  refine ⟨⟨_, (Request.run_in_memory (Host.inMemory_memoryHost _) hf disk).1, rfl⟩, ?_⟩
  intro name text hm normal
  have hname : name ∈ sources.map Prod.fst := List.mem_map_of_mem hm
  obtain ⟨hspelled, hnormal⟩ := hl name hname
  obtain ⟨hsound, hseen⟩ := request.sound_closure host rfl disk
  have hasked : normal ∈ (request.closure host disk).seen :=
    (hseen normal).2 (reached_of_given hn hname disk _)
  have hread : ((request.enter host disk).answers disk).read normal =
      .ok (sources.lookup normal) := readSource_enter hn hnormal disk
  have hraw : ((request.enter host disk).answers disk).read name = .ok (some text) :=
    (readSource_enter hn hspelled disk).trans
      (congrArg Except.ok ((lookup_eq_some_iff_mem hn).2 hm))
  rw [hprogram]
  refine ⟨?_, ?_, ?_⟩
  · refine (hsound.mem_sources ⟨normal, text⟩).trans ?_
    rw [hread, ← lookup_eq_some_iff_mem hn]
    simpa using fun _ => hasked
  · refine hsound.misses_iff.trans ?_
    rw [hread, ← lookup_eq_none_iff_not_mem]
    simpa using fun _ => hasked
  · intro hmissed
    have hnone := (hsound.misses_iff.1 hmissed).2
    rw [hraw] at hnone
    simp at hnone

/-- Of two spellings of one name, the one in normal form is compiled. -/
theorem given_compiled_iff_twice :
    let sources := [("lib/../b.ts", "var b;\n"), ("b.ts", "var c;\n"), ("./a.ts", "var a;\n")]
    let settings := Settings.ofTokens ["--noLib"]
    let program := settings.programFor sources emptyDisk
    (sources.map Prod.fst).Nodup ∧
    (∀ name ∈ sources.map Prod.fst, ¬ settings.NamesLibrary name ∧
      ¬ settings.NamesLibrary (FileName.normalize name)) ∧
    ⟨"b.ts", "var b;\n"⟩ ∉ program.sources ∧ ⟨"b.ts", "var c;\n"⟩ ∈ program.sources ∧
    ¬ program.Misses "b.ts" ∧ program.Misses "a.ts" := by
  intro sources settings program
  have hn : (sources.map Prod.fst).Nodup := by decide
  have hl : ∀ name ∈ sources.map Prod.fst, ¬ settings.NamesLibrary name ∧
      ¬ settings.NamesLibrary (FileName.normalize name) := by
    unfold Settings.NamesLibrary
    decide +kernel
  have hc : FileName.normalize "lib/../b.ts" = "b.ts" := by decide
  have hb : FileName.normalize "b.ts" = "b.ts" := by decide
  have ha : FileName.normalize "./a.ts" = "a.ts" := by decide
  obtain ⟨-, hgiven⟩ := given_compiled_iff settings sources emptyDisk hn hl
  obtain ⟨hlost, hfound, -⟩ := hgiven "lib/../b.ts" "var b;\n" (by simp [sources])
  obtain ⟨hkept, -, -⟩ := hgiven "b.ts" "var c;\n" (by simp [sources])
  obtain ⟨-, hmissed, -⟩ := hgiven "./a.ts" "var a;\n" (by simp [sources])
  rw [hc] at hlost hfound
  rw [hb] at hkept
  rw [ha] at hmissed
  exact ⟨hn, hl, mt hlost.1 (by decide), hkept.2 (by decide), mt hfound.1 (by decide),
    hmissed.2 (by decide)⟩

/-- A text that is given as `./a.ts` is not compiled, and the run says that there is none. -/
theorem given_text_not_found :
    let sources := [("./a.ts", "var a;\n")]
    let settings := Settings.ofTokens ["--noLib"]
    let program := settings.programFor sources emptyDisk
    (sources.map Prod.fst).Nodup ∧ ¬ settings.NamesLibrary "./a.ts" ∧
    ∃ compilation, (Engine.verbatim.compileStrings settings (sources.map Descriptor.ofEntry)
        emptyDisk).result = .ok compilation ∧
      compilation.diagnostics = ["error TS6053: File 'a.ts' not found."] ∧
      program.Misses (FileName.normalize "./a.ts") ∧ program.sources = [] := by
  intro sources settings program
  have hview : (Engine.verbatim.compileStrings settings (sources.map Descriptor.ofEntry)
      emptyDisk).result.toOption.map Compilation.diagnostics =
        some ["error TS6053: File 'a.ts' not found."] := by decide +kernel
  obtain ⟨compilation, hr, hd⟩ := exists_ok_of_map hview
  have he : program.early = [⟨none, 0, 0, .error, 6053, "File 'a.ts' not found."⟩] := by
    decide +kernel
  have ha : FileName.normalize "./a.ts" = "a.ts" := by decide
  refine ⟨by decide, ?_, compilation, hr, hd, ⟨_, he ▸ List.mem_singleton_self _, rfl, rfl, ?_⟩,
    by decide +kernel⟩
  · unfold Settings.NamesLibrary
    decide +kernel
  · rw [ha]
    decide

end ScriptHost
