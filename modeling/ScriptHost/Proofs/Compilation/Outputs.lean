import ScriptHost.Proofs.Compilation.Memory

/-! The outputs of texts that are compiled in memory one by one: each source has an output of its
own unless another source that is emitted has an output of the same name. -/

namespace ScriptHost

variable {request : Request} {host : Host} {disk : Disk} {outputs : NameMap String}
  {emitted : List SourceText} {output : SourceText → String} {name text : String}

/-- The descriptor of a text under a name. -/
def Descriptor.ofEntry (entry : String × String) : Descriptor := .string entry.1 entry.2

/-- The request for texts with settings. -/
def Settings.requestFor (settings : Settings) (sources : List (String × String)) : Request :=
  settings.request (sources.map Descriptor.ofEntry)

/-- The program that texts are compiled to in memory. -/
def Settings.programFor (settings : Settings) (sources : List (String × String)) (disk : Disk) :
    Program :=
  (Engine.verbatim.built (settings.requestFor sources) (Engine.memoryHost settings.configuration)
    disk).answer

theorem names_ofEntry (sources : List (String × String)) :
    (sources.map Descriptor.ofEntry).map Descriptor.name = sources.map Prod.fst := by
  rw [List.map_map]
  rfl

theorem texts_requestFor (settings : Settings) (sources : List (String × String)) :
    (settings.requestFor sources).texts = sources := by
  rw [Request.texts, Settings.requestFor, Settings.request, List.filterMap_map]
  exact List.filterMap_some

theorem medium_requestFor (settings : Settings) (sources : List (String × String)) :
    ∀ source ∈ (settings.requestFor sources).sources, source.medium = .string := by
  intro source hm
  obtain ⟨entry, -, rfl⟩ := List.mem_map.1 hm
  rfl

/-- Every source has its text in an output of its own, and nothing else is there. -/
def OneEach (outputs : NameMap String) (emitted : List SourceText) : Prop :=
  ∃ name : SourceText → String,
    outputs.entries.Perm (emitted.map fun source => (name source, Target.terminated "\n" source.text))

/-- What is written for sources one by one, by the names of their outputs. -/
def outputEntries (output : SourceText → String) (emitted : List SourceText) :
    List (String × String) :=
  emitted.map fun source => (output source, Target.terminated "\n" source.text)

theorem names_outputEntries (output : SourceText → String) (emitted : List SourceText) :
    (outputEntries output emitted).map Prod.fst = emitted.map output := by
  rw [outputEntries, List.map_map]
  rfl

theorem oneEach_putAll_iff :
    OneEach (NameMap.empty.putAll (outputEntries output emitted)) emitted ↔
      (emitted.map output).Nodup := by
  rw [← names_outputEntries]
  constructor
  · rintro ⟨name, hp⟩
    refine NameMap.nodup_of_length_putAll_empty (hp.length_eq.trans ?_)
    rw [List.length_map, outputEntries, List.length_map]
  · intro hn
    exact ⟨output, NameMap.perm_putAll_empty hn⟩

/-- Of sources with one output, the last one has its text there. -/
theorem get?_putAll_outputEntries :
    (NameMap.empty.putAll (outputEntries output emitted)).get? name = some text ↔
      ∃ before source after, emitted = before ++ source :: after ∧ output source = name ∧
        (∀ later ∈ after, output later ≠ name) ∧ text = Target.terminated "\n" source.text := by
  rw [NameMap.get?_putAll, NameMap.get?_empty, Option.or_none, List.lookup_eq_some_iff]
  constructor
  · rintro ⟨later, earlier, he, hne⟩
    rw [List.reverse_eq_iff, List.reverse_append, List.reverse_cons, List.append_assoc,
      outputEntries, List.map_eq_append_iff] at he
    obtain ⟨before, rest, rfl, -, hrest⟩ := he
    obtain ⟨source, after, rfl, hsource, hafter⟩ := List.map_eq_cons_iff.1 hrest
    obtain ⟨rfl, rfl⟩ := Prod.mk.inj hsource
    refine ⟨before, source, after, rfl, rfl, fun other ho => ?_, rfl⟩
    have hm : (output other, Target.terminated "\n" other.text) ∈ [] ++ later.reverse :=
      (congrArg (_ ∈ ·) hafter).mp (List.mem_map_of_mem ho)
    exact (bne_iff_ne.1 (hne _ (List.mem_reverse.1 hm))).symm
  · rintro ⟨before, source, after, rfl, rfl, hne, rfl⟩
    refine ⟨(outputEntries output after).reverse, (outputEntries output before).reverse,
      by simp [outputEntries], fun entry he => ?_⟩
    obtain ⟨other, ho, rfl⟩ := List.mem_map.1 (List.mem_reverse.1 he)
    simpa using (hne other ho).symm

theorem body_single (name newLine : String) (source : SourceText) :
    Target.body ⟨name, [source]⟩ newLine = Target.terminated newLine source.text := by
  simp [Target.body]

/-- What a run without an output for all sources and without source maps writes, if it does not end
early: the sources one by one. -/
theorem Request.writes_of_separate (hn : host.newLine = "\n")
    (ho : (request.options host disk).out = none)
    (hm : (request.options host disk).sourceMap = false)
    (he : Engine.verbatim.early request host disk = []) :
    request.writes host disk =
      outputEntries (fun source => Target.nameFor source.name (request.options host disk).outDir)
        ((request.closure host disk).sources.filter fun source => !source.isDeclaration) := by
  have ht : request.targets host disk =
      Target.ofProgram (request.options host disk) (request.closure host disk).sources :=
    if_neg (by simp [he])
  rw [writes, ht, Target.ofProgram, ho, hm, hn, outputEntries, List.flatMap_map,
    ← List.flatMap_singleton' (List.map _ _), List.flatMap_map]
  simp only [Target.writes, Target.text, body_single]
  rfl

/-- Texts compiled in memory, without an output for all of them and without source maps: when
nothing is wrong, each source that is emitted has an output of its own just when no two of them have
outputs of one name. Of sources that share an output, the last one is there. -/
theorem one_output_each_iff (settings : Settings) (sources : List (String × String)) (disk : Disk)
    (hn : (sources.map Prod.fst).Nodup) :
    let request := settings.requestFor sources
    let host := Engine.memoryHost settings.configuration
    let options := (request.commandLine Engine.verbatim host disk).options
    let emitted := (settings.programFor sources disk).sources.filter fun source =>
      !source.isDeclaration
    let output := fun source : SourceText => Target.nameFor source.name options.outDir
    ∃ compilation, (Engine.verbatim.compileStrings settings (sources.map Descriptor.ofEntry)
        disk).result = .ok compilation ∧
      (options.out = none → options.sourceMap = false → compilation.diagnostics = [] →
        (OneEach compilation.outputs emitted ↔ (emitted.map output).Nodup) ∧
        ∀ name text, compilation.outputs.get? name = some text ↔
          ∃ before source after, emitted = before ++ source :: after ∧ output source = name ∧
            (∀ later ∈ after, output later ≠ name) ∧ text = Target.terminated "\n" source.text) := by
  intro request host options emitted output
  have hf : request.fault? host = none :=
    Request.fault?_in_memory (Host.inMemory_memoryHost _) (names_ofEntry sources ▸ hn)
  refine ⟨_, (Request.run_in_memory (Host.inMemory_memoryHost _) hf disk).1, fun ho hm hd => ?_⟩
  have he : Engine.verbatim.early request host disk = [] := List.map_eq_nil_iff.1 hd
  have hemitted : emitted =
      (request.closure host disk).sources.filter fun source => !source.isDeclaration :=
    congrArg _ (Request.sources_built_verbatim request host disk)
  have hw : request.writes host disk = outputEntries output emitted :=
    hemitted ▸ Request.writes_of_separate rfl ho hm he
  rw [hw]
  exact ⟨oneEach_putAll_iff, fun _ _ => get?_putAll_outputEntries⟩

theorem exists_ok_of_map {α β : Type} {result : Except CompileError α} {view : α → β} {value : β}
    (h : result.toOption.map view = some value) : ∃ a, result = .ok a ∧ view a = value := by
  cases result with
  | error error => simp [Except.toOption] at h
  | ok a => exact ⟨a, rfl, Option.some.inj h⟩

/-- Settings of a command line. -/
def Settings.ofTokens (tokens : List String) : Settings := { arguments := .tokens tokens }

theorem one_output_each_below_directory :
    let sources := [("a.ts", "var a;"), ("b.d.ts", "declare var b;"), ("/x/c.tsx", "")]
    let settings := Settings.ofTokens ["--noLib", "--outDir", "out"]
    let emitted : List SourceText := [⟨"a.ts", "var a;"⟩, ⟨"/x/c.tsx", ""⟩]
    (sources.map Prod.fst).Nodup ∧
    ∃ compilation, (Engine.verbatim.compileStrings settings (sources.map Descriptor.ofEntry)
        emptyDisk).result = .ok compilation ∧
      compilation.diagnostics = [] ∧ OneEach compilation.outputs emitted ∧
      compilation.outputs.get? "out/a.js" = some "var a;\n" := by
  intro sources settings emitted
  have hn : (sources.map Prod.fst).Nodup := by decide
  obtain ⟨compilation, hr, hclean⟩ := one_output_each_iff settings sources emptyDisk hn
  have hd : compilation.diagnostics = [] := by
    have hview : (Engine.verbatim.compileStrings settings (sources.map Descriptor.ofEntry)
        emptyDisk).result.toOption.map Compilation.diagnostics = some [] := by decide +kernel
    obtain ⟨other, ho, hview⟩ := exists_ok_of_map hview
    exact Except.ok.inj (hr.symm.trans ho) ▸ hview
  have he : ((settings.programFor sources emptyDisk).sources.filter
      fun source => !source.isDeclaration) = emitted := by decide +kernel
  obtain ⟨hiff, hlast⟩ := hclean (by decide +kernel) (by decide +kernel) hd
  rw [he] at hiff hlast
  refine ⟨hn, compilation, hr, hd, hiff.2 (by decide +kernel), (hlast _ _).2 ?_⟩
  exact ⟨[], ⟨"a.ts", "var a;"⟩, [⟨"/x/c.tsx", ""⟩], rfl, by decide +kernel, by decide +kernel,
    by decide +kernel⟩

/-- Sources that differ in their endings alone share an output, and nothing is said about it. -/
theorem earlier_output_overwritten :
    let sources := [("a.ts", "var a;\n"), ("a.tsx", "var b;\n")]
    let settings := Settings.ofTokens ["--noLib"]
    let request := settings.requestFor sources
    let host := Engine.memoryHost settings.configuration
    let options := (request.commandLine Engine.verbatim host emptyDisk).options
    let emitted := (settings.programFor sources emptyDisk).sources.filter fun source =>
      !source.isDeclaration
    (sources.map Prod.fst).Nodup ∧ options.out = none ∧ options.sourceMap = false ∧
    emitted = [⟨"a.ts", "var a;\n"⟩, ⟨"a.tsx", "var b;\n"⟩] ∧
    ∃ compilation, (Engine.verbatim.compileStrings settings (sources.map Descriptor.ofEntry)
        emptyDisk).result = .ok compilation ∧
      compilation.diagnostics = [] ∧ compilation.outputs.entries = [("a.js", "var b;\n")] ∧
      ¬ OneEach compilation.outputs emitted := by
  intro sources settings request host options emitted
  have he : emitted = [⟨"a.ts", "var a;\n"⟩, ⟨"a.tsx", "var b;\n"⟩] := by decide +kernel
  have hview : (Engine.verbatim.compileStrings settings (sources.map Descriptor.ofEntry)
      emptyDisk).result.toOption.map (fun compilation =>
        (compilation.diagnostics, compilation.outputs.entries)) =
          some ([], [("a.js", "var b;\n")]) := by decide +kernel
  obtain ⟨compilation, hr, hview⟩ := exists_ok_of_map hview
  obtain ⟨hd, ho⟩ := Prod.mk.inj hview
  refine ⟨by decide, by decide +kernel, by decide +kernel, he, compilation, hr, hd, ho, ?_⟩
  rintro ⟨name, hp⟩
  have hl := hp.length_eq
  rw [ho, he] at hl
  simp at hl

end ScriptHost
