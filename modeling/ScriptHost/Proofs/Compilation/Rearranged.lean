import ScriptHost.Proofs.Closure.Rearranged
import ScriptHost.Proofs.Compilation.Alike
import ScriptHost.Proofs.Compilation.Given
import ScriptHost.Proofs.FileName.Endings

/-! Texts compiled in memory in another order: without an output for all of them, and when no two
of them have outputs of one name, the order of what is produced is all that is different. -/

namespace ScriptHost

variable {sources others : List (String × String)} {disk : Disk}
  {options : Options} {first second : List SourceText} {targets : List Target}
  {earlier later : List Diagnostic}

namespace Target

theorem ofProgram_of_separate (h : options.out = none) (sources : List SourceText) :
    ofProgram options sources =
      (sources.filter fun source => !source.isDeclaration).map fun source =>
        ⟨nameFor source.name options.outDir, [source]⟩ := by
  rw [ofProgram, h]

theorem perm_ofProgram (h : options.out = none) (hp : first.Perm second) :
    (ofProgram options first).Perm (ofProgram options second) := by
  rw [ofProgram_of_separate h, ofProgram_of_separate h]
  exact (hp.filter _).map _

theorem perm_maps {others : List Target} (hp : targets.Perm others) (sourceMap : Bool) :
    (maps sourceMap targets).Perm (maps sourceMap others) := by
  cases sourceMap with
  | false => exact .refl []
  | true => exact hp.map _

theorem eq_of_mem_names {sourceMap : Bool} {target : Target} {name : String}
    (h : name ∈ target.names sourceMap) : name = target.name ∨ name = target.mapName := by
  cases sourceMap with
  | false => exact .inl (List.mem_singleton.1 h)
  | true => simpa [names] using h

/-- Outputs and source maps are all written under different names when the outputs are, and none
of these is named like a source map. -/
theorem nodup_writes (hn : (targets.map Target.name).Nodup)
    (hm : ∀ target ∈ targets, ∀ name, target.name ≠ name ++ ".map") (newLine : String)
    (sourceMap : Bool) :
    ((targets.flatMap (Target.writes newLine sourceMap)).map Prod.fst).Nodup := by
  have hp : targets.Pairwise fun target other => target.name ≠ other.name :=
    List.pairwise_map.1 hn
  rw [List.map_flatMap]
  simp only [names_writes]
  rw [List.nodup_flatMap]
  constructor
  · intro target ht
    cases sourceMap with
    | false => exact List.nodup_singleton _
    | true =>
      have hne : target.name ≠ target.mapName := hm target ht target.name
      simpa [names] using hne
  · refine hp.imp_of_mem fun {target other} ht ho hne name hfirst hsecond => ?_
    rcases eq_of_mem_names hfirst with rfl | rfl <;>
      rcases eq_of_mem_names hsecond with he | he
    · exact hne he
    · exact hm target ht other.name he
    · exact hm other ho target.name he.symm
    · exact hne ((String.append_left_inj _).1 he)

end Target

/-- Diagnostics that are the same but for their order and places are none together. -/
theorem eq_nil_iff_of_unplaced
    (h : (earlier.map Diagnostic.unplaced).Perm (later.map Diagnostic.unplaced)) :
    earlier = [] ↔ later = [] := by
  have hl : earlier.length = later.length := by simpa using h.length_eq
  rw [← List.length_eq_zero_iff, hl, List.length_eq_zero_iff]

section

variable (settings : Settings) (hn : (sources.map Prod.fst).Nodup) (hp : sources.Perm others)
  (disk : Disk)
include hn hp

/-- Texts in another order lead to the same sources and faults. -/
theorem perm_closure :
    let host := Engine.memoryHost settings.configuration
    let first := (settings.requestFor sources).closure host disk
    let second := (settings.requestFor others).closure host disk
    first.sources.Perm second.sources ∧
      (first.faults.map Diagnostic.unplaced).Perm (second.faults.map Diagnostic.unplaced) := by
  intro host first second
  have hm : (others.map Prod.fst).Nodup := (hp.map Prod.fst).nodup_iff.1 hn
  have hfirst : (settings.requestFor sources).enter host disk = _ := enter_memoryHost hn disk
  have hsecond : (settings.requestFor others).enter host disk = _ := enter_memoryHost hm disk
  have hsources : NameMap.ofList sources = NameMap.ofList others :=
    NameMap.putAll_of_perm NameMap.empty hp hn
  have hserved : ((settings.requestFor sources).enter host disk).served =
      ((settings.requestFor others).enter host disk).served := by
    rw [hfirst, hsecond, hsources]
    rfl
  have hread : ((settings.requestFor sources).enter host disk).readSource disk =
      ((settings.requestFor others).enter host disk).readSource disk := by
    rw [hfirst, hsecond, hsources]
    exact Host.readSource_congr rfl rfl rfl disk
  have hclosure : second = _ :=
    Request.closure_of_readSource rfl (commandLine_requestFor _ _ _ _ _) hserved hread
  have hcase : ((settings.requestFor sources).enter host disk).caseSensitive = true := by
    rw [hfirst]
    rfl
  have hi : Function.Injective
      (((settings.requestFor sources).enter host disk).answers disk).canonicalName :=
    canonicalName_answers hcase disk ▸ Function.injective_id
  rw [hclosure]
  refine Closure.perm_ofRoots (encard_texts_answers _ disk) hi fun name => ?_
  rw [roots_requestFor hn, roots_requestFor hm, mem_addNames, mem_addNames,
    (hp.map Prod.fst).mem_iff]

/-- Texts in another order have the same early diagnostics, but for their order and places. -/
theorem perm_early :
    let host := Engine.memoryHost settings.configuration
    ((Engine.verbatim.early (settings.requestFor sources) host disk).map Diagnostic.unplaced).Perm
      ((Engine.verbatim.early (settings.requestFor others) host disk).map Diagnostic.unplaced) := by
  intro host
  rw [Request.early_verbatim, Request.early_verbatim,
    commandLine_requestFor settings others sources, List.map_append, List.map_append]
  exact (perm_closure settings hn hp disk).2.append_left _

/-- The run of texts in another order ends early just when that of the first order does. -/
theorem ends_early_iff :
    let host := Engine.memoryHost settings.configuration
    let request := settings.requestFor sources
    let again := settings.requestFor others
    request.EndsEarly host disk ↔ again.EndsEarly host disk := by
  intro host request again
  have hnil := eq_nil_iff_of_unplaced (perm_early settings hn hp disk)
  exact and_congr_right fun _ => not_congr hnil

/-- Texts in another order have the same outputs written, in another order. -/
theorem perm_targets
    (ho : ((settings.requestFor sources).options (Engine.memoryHost settings.configuration)
      disk).out = none) :
    let host := Engine.memoryHost settings.configuration
    ((settings.requestFor sources).targets host disk).Perm
      ((settings.requestFor others).targets host disk) := by
  intro host
  have hends := ends_early_iff settings hn hp disk
  rw [Request.targets, Request.targets, options_requestFor settings others sources]
  by_cases he : (settings.requestFor sources).EndsEarly host disk
  · rw [if_pos he, if_pos (hends.1 he)]
  · rw [if_neg he, if_neg (mt hends.2 he)]
    exact Target.perm_ofProgram ho (perm_closure settings hn hp disk).1

theorem perm_writes
    (ho : ((settings.requestFor sources).options (Engine.memoryHost settings.configuration)
      disk).out = none) :
    let host := Engine.memoryHost settings.configuration
    ((settings.requestFor sources).writes host disk).Perm
      ((settings.requestFor others).writes host disk) := by
  intro host
  rw [Request.writes, Request.writes, options_requestFor settings others sources]
  exact (perm_targets settings hn hp disk ho).flatMap_right _

theorem perm_maps
    (ho : ((settings.requestFor sources).options (Engine.memoryHost settings.configuration)
      disk).out = none) :
    let host := Engine.memoryHost settings.configuration
    ((settings.requestFor sources).maps host disk).Perm
      ((settings.requestFor others).maps host disk) := by
  intro host
  rw [Request.maps, Request.maps, options_requestFor settings others sources]
  exact Target.perm_maps (perm_targets settings hn hp disk ho) _

/-- The run of texts in another order goes through the same phases. -/
theorem phases_compileStrings :
    (Engine.verbatim.compileStrings settings (sources.map Descriptor.ofEntry) disk).phases =
      (Engine.verbatim.compileStrings settings (others.map Descriptor.ofEntry) disk).phases := by
  have hm : (others.map Prod.fst).Nodup := (hp.map Prod.fst).nodup_iff.1 hn
  let host := Engine.memoryHost settings.configuration
  have hhost : host.InMemory := Host.inMemory_memoryHost _
  have hd : (host.forgetDirectories.currentDirectory disk).1 = .ok "" := rfl
  have hends := ends_early_iff settings hn hp disk
  exact (Engine.phases_run (fault?_requestFor hhost hn) hd).trans
    ((if_congr hends rfl rfl).trans (Engine.phases_run (fault?_requestFor hhost hm) hd).symm)

end

theorem Request.nodup_names_writes {request : Request} {host : Host}
    (ho : (request.options host disk).out = none)
    (hd : ((request.closure host disk).sources.filter fun source => !source.isDeclaration).map
      (fun source => Target.nameFor source.name (request.options host disk).outDir) |>.Nodup) :
    ((request.writes host disk).map Prod.fst).Nodup := by
  rw [writes]
  by_cases he : request.EndsEarly host disk
  · rw [targets, if_pos he]
    exact List.nodup_nil
  · rw [targets, if_neg he, Target.ofProgram_of_separate ho]
    refine Target.nodup_writes ?_ (fun target ht => ?_) _ _
    · rwa [List.map_map]
    · obtain ⟨source, -, rfl⟩ := List.mem_map.1 ht
      exact nameFor_ne_append_map _ _

/-- Texts compiled in memory in another order, with different names, without an output for all of
them and when no two that are emitted have outputs of one name: the runs go through the same phases,
have the same outputs, and apart from their order the same program, source maps and diagnostics, but
for the places of these. -/
theorem compiled_in_any_order (settings : Settings) (sources others : List (String × String))
    (disk : Disk) (hn : (sources.map Prod.fst).Nodup) (hp : sources.Perm others) :
    let host := Engine.memoryHost settings.configuration
    let request := settings.requestFor sources
    let again := settings.requestFor others
    let options := (request.commandLine Engine.verbatim host disk).options
    let program := settings.programFor sources disk
    let emitted := program.sources.filter fun source => !source.isDeclaration
    options.out = none →
    (emitted.map fun source => Target.nameFor source.name options.outDir).Nodup →
    let first := Engine.verbatim.compileStrings settings (sources.map Descriptor.ofEntry) disk
    let second := Engine.verbatim.compileStrings settings (others.map Descriptor.ofEntry) disk
    let earlier := Engine.verbatim.early request host disk
    let later := Engine.verbatim.early again host disk
    ∃ one two, first.result = .ok one ∧ second.result = .ok two ∧ first.phases = second.phases ∧
      program.sources.Perm (settings.programFor others disk).sources ∧
      one.outputs = two.outputs ∧ one.sourceMaps.Perm two.sourceMaps ∧
      one.diagnostics = earlier.map Diagnostic.render ∧
      two.diagnostics = later.map Diagnostic.render ∧
      (earlier.map Diagnostic.unplaced).Perm (later.map Diagnostic.unplaced) := by
  intro host request again options program emitted ho hd first second earlier later
  have hm : (others.map Prod.fst).Nodup := (hp.map Prod.fst).nodup_iff.1 hn
  have hhost : host.InMemory := Host.inMemory_memoryHost _
  have hf : request.fault? host = none := fault?_requestFor hhost hn
  have hg : again.fault? host = none := fault?_requestFor hhost hm
  have hsources : program.sources = (request.closure host disk).sources :=
    Request.sources_built_verbatim request host disk
  have hothers : (settings.programFor others disk).sources = (again.closure host disk).sources :=
    Request.sources_built_verbatim again host disk
  have hclosed : program.sources.Perm (settings.programFor others disk).sources := by
    rw [hsources, hothers]
    exact (perm_closure settings hn hp disk).1
  have hnames : ((request.writes host disk).map Prod.fst).Nodup :=
    Request.nodup_names_writes ho (hsources ▸ hd)
  have houtputs : host.outputs.putAll (request.writes host disk) =
      host.outputs.putAll (again.writes host disk) :=
    NameMap.putAll_of_perm _ (perm_writes settings hn hp disk ho) hnames
  exact ⟨_, _, (Request.run_in_memory hhost hf disk).1, (Request.run_in_memory hhost hg disk).1,
    phases_compileStrings settings hn hp disk, hclosed, houtputs, perm_maps settings hn hp disk ho,
    rfl, rfl, perm_early settings hn hp disk⟩

/-- A file that two texts refer to is missed by the one that stands first. -/
theorem compiled_in_any_order_dangling :
    let gone := "/// <reference path='gone.ts' />\n"
    let sources := [("a.ts", gone), ("lib/b.d.ts", "declare var b;"), ("c.ts", gone)]
    let others := [("c.ts", gone), ("a.ts", gone), ("lib/b.d.ts", "declare var b;")]
    let settings : Settings := {
      arguments := .tokens ["--noLib", "--sourceMap"], configuration := { fullTypeCheck := false } }
    (sources.map Prod.fst).Nodup ∧ sources.Perm others ∧
    ∃ one two, (Engine.verbatim.compileStrings settings (sources.map Descriptor.ofEntry)
        emptyDisk).result = .ok one ∧
      (Engine.verbatim.compileStrings settings (others.map Descriptor.ofEntry)
        emptyDisk).result = .ok two ∧
      one.outputs = two.outputs ∧ one.sourceMaps.Perm two.sourceMaps ∧
      one.outputs.names = ["a.js", "a.js.map", "c.js", "c.js.map"] ∧
      one.diagnostics = ["a.ts(1,1): error TS6053: File 'gone.ts' not found."] ∧
      two.diagnostics = ["c.ts(1,1): error TS6053: File 'gone.ts' not found."] := by
  intro gone sources others settings
  have hn : (sources.map Prod.fst).Nodup := by decide
  have hp : sources.Perm others := by decide
  obtain ⟨one, two, hone, htwo, -, -, houtputs, hmaps, hfirst, hsecond, -⟩ :=
    compiled_in_any_order settings sources others emptyDisk hn hp (by decide +kernel)
      (by decide +kernel)
  have hview : (Engine.verbatim.compileStrings settings (sources.map Descriptor.ofEntry)
      emptyDisk).result.toOption.map (fun compilation => compilation.outputs.names) =
        some ["a.js", "a.js.map", "c.js", "c.js.map"] := by decide +kernel
  obtain ⟨first, hf, hnames⟩ := exists_ok_of_map hview
  obtain rfl : one = first := Except.ok.inj (hone.symm.trans hf)
  refine ⟨hn, hp, one, two, hone, htwo, houtputs, hmaps, hnames, hfirst.trans ?_, hsecond.trans ?_⟩
  · decide +kernel
  · decide +kernel

end ScriptHost
