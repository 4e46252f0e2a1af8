import Mathlib.Data.String.Basic
import ScriptHost.Proofs.Closure.Complete
import ScriptHost.Proofs.Compilation.Given
import ScriptHost.Proofs.FileName.Endings
import ScriptHost.Proofs.Reference
import ScriptHost.Proofs.SourceMap.Exact

/-! One text compiled by itself: it has the outputs that it has when it is compiled under a name,
and what comes out compiles to itself. -/

namespace ScriptHost

variable {settings : Settings} {options : Options} {text name : String} {disk : Disk}
  {target : Target} {source : SourceText} {sources : List SourceText}

namespace Target

theorem terminated_terminated (text : String) :
    terminated "\n" (terminated "\n" text) = terminated "\n" text := by
  refine String.toList_inj.1 ?_
  rw [toList_terminated, toList_terminated]
  exact if_pos (Text.ended_ended _)

theorem terminated_ne_empty (h : text ≠ "") : terminated "\n" text ≠ "" := by
  intro he
  have hl := congrArg String.toList he
  rw [toList_terminated, Text.ended] at hl
  split at hl
  · exact h (String.toList_inj.1 hl)
  · simp at hl

theorem name_lt_mapName (target : Target) : target.name < target.mapName := by
  rw [mapName, String.lt_iff_toList_lt, String.toList_append]
  exact lt_append_self (by decide)

/-- What is written for an output stands in the order of the names. -/
theorem sorted_writes (newLine : String) (sourceMap : Bool) (target : Target) :
    (target.writes newLine sourceMap).Pairwise (·.1 < ·.1) := by
  cases sourceMap with
  | false => exact List.pairwise_singleton _ _
  | true => exact List.pairwise_pair.2 (name_lt_mapName target)

theorem exists_ofProgram_eq
    (h : (sources.filter fun source => !source.isDeclaration) = [source]) (options : Options) :
    ∃ name, ofProgram options sources = [⟨name, [source]⟩] := by
  rw [ofProgram, h]
  cases options.out with
  | none => exact ⟨_, rfl⟩
  | some out => exact ⟨out, rfl⟩

end Target

/-- The request for one text, which has no name of its own. -/
abbrev Settings.requestForText (settings : Settings) (text : String) : Request :=
  settings.requestFor [(StringInput.rawName, text)]

/-- The outputs of a run, one after another, as it writes them. -/
def Request.written (request : Request) (host : Host) (disk : Disk) : String :=
  String.join ((request.writes host disk).map Prod.snd)

theorem nodup_rawName (text : String) : ([(StringInput.rawName, text)].map Prod.fst).Nodup :=
  List.nodup_singleton _

theorem fault?_requestForText {host : Host} (h : host.InMemory) :
    (settings.requestForText text).fault? host = none :=
  fault?_requestFor h (nodup_rawName text)

/-- A redirect makes no difference to what is compiled. -/
theorem alike_redirected (request : Request) (redirect : Option String)
    (hm : ∀ source ∈ request.sources, source.medium = .string) (configuration : Configuration)
    (disk : Disk) :
    Request.Alike request request { Engine.memoryHost configuration with redirect := redirect }
      (Engine.memoryHost configuration) disk := by
  have hline : request.commandLine Engine.verbatim
      { Engine.memoryHost configuration with redirect := redirect } disk =
        request.commandLine Engine.verbatim (Engine.memoryHost configuration) disk :=
    Request.commandLine_congr rfl rfl _ _
  have hregistry : Host.registry { Engine.memoryHost configuration with redirect := redirect } =
      (Engine.memoryHost configuration).registry := rfl
  exact ⟨hline, Request.closure_congr ⟨rfl, rfl⟩ (Host.inMemory_memoryHost _) rfl rfl hm hm hline
    (Host.registry_addSources_congr hregistry _), rfl, rfl⟩

/-- One text is compiled to all that a run writes for it. -/
theorem compileString_text (settings : Settings) (disk : Disk) (ht : text ≠ "") :
    let outcome := Engine.verbatim.compileString settings (.text text) disk
    outcome.result = .ok ((settings.requestForText text).written
        (Engine.memoryHost settings.configuration) disk) ∧
      outcome.disk = disk := by
  let request := settings.requestForText text
  let host : Host := { Engine.memoryHost settings.configuration with redirect := some "" }
  have hhost : host.InMemory := ⟨rfl, rfl⟩
  have hsource : (StringInput.text text).source? =
      .ok (some (.string StringInput.rawName text)) := by
    rw [StringInput.source?, if_neg (by simpa using ht)]
  have hrun : Engine.verbatim.compileString settings (.text text) disk =
      (Engine.verbatim.run request host disk).map fun _ =>
        String.join ((Engine.verbatim.run request host disk).host.forwarded.map Forwarded.data) := by
    rw [Engine.compileString, hsource]
    rfl
  have hf : request.fault? host = none := fault?_requestForText hhost
  obtain ⟨hresult, -, hdisk⟩ := Request.run_in_memory hhost hf disk
  have hwrites : request.writes host disk = request.writes _ disk :=
    (alike_redirected request (some "") (medium_requestFor _ _) _ disk).writes
  rw [hrun]
  refine ⟨?_, hdisk⟩
  rw [Outcome.map, Request.forwarded_run hhost hf rfl rfl disk, hresult, hwrites]
  rfl

/-- The library of settings is a declaration file under its normal form. -/
def Settings.DeclaresLibrary (settings : Settings) : Prop :=
  FileName.isDeclaration (FileName.normalize settings.configuration.defaultLibrary) = true

theorem not_namesLibrary_rawName (hl : settings.DeclaresLibrary) :
    ¬ settings.NamesLibrary StringInput.rawName := by
  intro hn
  have hraw : FileName.isDeclaration (FileName.normalize StringInput.rawName) = true := by
    rw [Settings.NamesLibrary] at hn
    rw [hn]
    exact hl
  exact absurd hraw (by decide)

/-- What a text leads to besides itself only declares: there is nothing but the library. -/
theorem eq_or_isDeclaration_of_mem (hl : settings.DeclaresLibrary)
    (hs : source ∈ ((settings.requestForText text).closure
      (Engine.memoryHost settings.configuration) disk).sources) :
    source = ⟨StringInput.rawName, text⟩ ∨ source.isDeclaration = true := by
  let request := settings.requestForText text
  let host := Engine.memoryHost settings.configuration
  have hn := nodup_rawName text
  obtain ⟨hsound, hseen⟩ := request.sound_closure host rfl disk
  obtain ⟨hasked, -, hread⟩ := (hsound.mem_sources source).1 hs
  have hentered : request.enter host disk = _ := enter_memoryHost hn disk
  rw [Host.read_answers] at hread
  rcases Host.source_of_readSource hread with hg | ⟨-, hlibrary⟩
  · left
    have hlookup : [(StringInput.rawName, text)].lookup source.name = some source.text := by
      rw [hentered] at hg
      exact (NameMap.get?_ofList hn).symm.trans hg
    obtain ⟨hname, htext⟩ :=
      Prod.mk.inj (List.mem_singleton.1 ((lookup_eq_some_iff_mem hn).1 hlookup))
    rw [← hname, ← htext]
  · right
    have hsame : FileName.normalize source.name =
        FileName.normalize settings.configuration.defaultLibrary := by
      have hstrings := hlibrary (by rw [hentered]; rfl)
      rw [Host.isDefaultLibrary, hentered] at hstrings
      exact beq_iff_eq.1 hstrings
    refine FileName.isDeclaration_of_normalize ((hseen _).1 hasked).exists_normalize_eq ?_
    rw [hsame]
    exact hl

theorem text_mem_sources (hl : settings.DeclaresLibrary) (text : String) (disk : Disk) :
    ⟨StringInput.rawName, text⟩ ∈ ((settings.requestForText text).closure
      (Engine.memoryHost settings.configuration) disk).sources := by
  let request := settings.requestForText text
  let host := Engine.memoryHost settings.configuration
  have hn := nodup_rawName text
  obtain ⟨hsound, hseen⟩ := request.sound_closure host rfl disk
  have hraw : FileName.normalize StringInput.rawName = StringInput.rawName := by decide
  have hasked : FileName.normalize StringInput.rawName ∈ (request.closure host disk).seen :=
    (hseen _).2 (reached_of_given hn List.mem_cons_self disk _)
  rw [hraw] at hasked
  refine (hsound.mem_sources _).2 ⟨hasked, List.not_mem_nil, ?_⟩
  rw [Host.read_answers, readSource_enter hn (not_namesLibrary_rawName hl) disk,
    List.lookup_cons_self]

/-- Nothing but the text is emitted. -/
theorem emitted_of_text (hl : settings.DeclaresLibrary) (text : String) (disk : Disk) :
    (((settings.requestForText text).closure (Engine.memoryHost settings.configuration)
      disk).sources.filter fun source => !source.isDeclaration) = [⟨StringInput.rawName, text⟩] := by
  have hsound := ((settings.requestForText text).sound_closure
    (Engine.memoryHost settings.configuration) rfl disk).1
  have hraw : SourceText.isDeclaration ⟨StringInput.rawName, text⟩ = false :=
    (by decide : FileName.isDeclaration StringInput.rawName = false)
  refine List.perm_singleton.1 ((List.perm_ext_iff_of_nodup
    ((List.Nodup.of_map _ hsound.sources_nodup).filter _) (List.nodup_singleton _)).2
    fun source => ?_)
  rw [List.mem_filter, List.mem_singleton, Bool.not_eq_true']
  constructor
  · rintro ⟨hs, hd⟩
    refine (eq_or_isDeclaration_of_mem hl hs).resolve_right ?_
    rw [hd]
    exact Bool.false_ne_true
  · rintro rfl
    exact ⟨text_mem_sources hl text disk, hraw⟩

/-- The outputs of one text are that of the text itself, unless the run ends early. -/
theorem exists_targets_of_text (hl : settings.DeclaresLibrary) (text : String) (disk : Disk) :
    let request := settings.requestForText text
    let host := Engine.memoryHost settings.configuration
    ∃ name, request.targets host disk =
      if request.EndsEarly host disk then [] else [⟨name, [⟨StringInput.rawName, text⟩]⟩] := by
  intro request host
  obtain ⟨name, hname⟩ :=
    Target.exists_ofProgram_eq (emitted_of_text hl text disk) (request.options host disk)
  exact ⟨name, by rw [Request.targets, hname]⟩

/-- The outputs of one text stand in the order of their names as they are written. -/
theorem join_values_of_text (hl : settings.DeclaresLibrary) (text : String) (disk : Disk) :
    let request := settings.requestForText text
    let host := Engine.memoryHost settings.configuration
    String.join (NameMap.empty.putAll (request.writes host disk)).values =
      request.written host disk := by
  intro request host
  have hsorted : (request.writes host disk).Pairwise (·.1 < ·.1) := by
    obtain ⟨name, hname⟩ := exists_targets_of_text hl text disk
    rw [Request.writes, hname]
    split
    · exact .nil
    · rw [List.flatMap_singleton]
      exact Target.sorted_writes _ _ _
  rw [NameMap.values, NameMap.entries_putAll_of_sorted hsorted]
  rfl

theorem written_of_text (hl : settings.DeclaresLibrary) (text : String) (disk : Disk) :
    let request := settings.requestForText text
    let host := Engine.memoryHost settings.configuration
    (request.options host disk).sourceMap = false →
    request.written host disk =
      if request.EndsEarly host disk then "" else Target.terminated "\n" text := by
  intro request host hm
  obtain ⟨name, hname⟩ := exists_targets_of_text hl text disk
  have hline : host.newLine = "\n" := rfl
  rw [Request.written, Request.writes, hname, hm, hline]
  split
  · rfl
  · have hwrites : Target.writes "\n" false ⟨name, [⟨StringInput.rawName, text⟩]⟩ =
        [(name, Target.terminated "\n" text)] :=
      congrArg (fun body => [(name, body)]) (body_single name "\n" ⟨StringInput.rawName, text⟩)
    rw [List.flatMap_singleton, hwrites]
    exact String.empty_append

/-- A text with a line feed at its end leads to what it leads to without. -/
theorem covers_terminated (settings : Settings) (text : String) (disk : Disk) :
    let host := Engine.memoryHost settings.configuration
    (((settings.requestForText (Target.terminated "\n" text)).enter host disk).answers disk).Covers
      (((settings.requestForText text).enter host disk).answers disk) := by
  intro host name found hf
  have hn := nodup_rawName text
  have hagain := nodup_rawName (Target.terminated "\n" text)
  rw [Host.read_answers] at hf ⊢
  by_cases hl : settings.NamesLibrary name
  · rw [readSource_enter_library hn hl disk] at hf
    rw [readSource_enter_library hagain hl disk]
    exact ⟨found, hf, rfl⟩
  · rw [readSource_enter hn hl disk] at hf
    obtain ⟨rfl, rfl⟩ := Prod.mk.inj (List.mem_singleton.1
      ((lookup_eq_some_iff_mem hn).1 (Except.ok.inj hf)))
    rw [readSource_enter hagain hl disk, List.lookup_cons_self]
    exact ⟨_, rfl, Reference.ofText_congr_ended (toList_terminated _)⟩

/-- Ending a text brings in no early diagnostic. -/
theorem early_terminated (settings : Settings) (text : String) (disk : Disk) :
    let host := Engine.memoryHost settings.configuration
    Engine.verbatim.early (settings.requestForText text) host disk = [] →
    Engine.verbatim.early (settings.requestForText (Target.terminated "\n" text)) host disk = [] := by
  intro host he
  rw [Request.early_verbatim, List.append_eq_nil_iff] at he ⊢
  obtain ⟨herrors, hfaults⟩ := he
  let request := settings.requestForText text
  let again := settings.requestForText (Target.terminated "\n" text)
  obtain ⟨hsound, hseen⟩ := request.sound_closure host rfl disk
  have hagain := (again.sound_closure host rfl disk).1
  have hline : again.commandLine Engine.verbatim host disk =
      request.commandLine Engine.verbatim host disk := commandLine_requestFor _ _ _ _ _
  have hroots (line : CommandLine) : request.roots (request.enter host disk) line =
      addNames [StringInput.rawName] line.fileNames := roots_requestFor (nodup_rawName _) disk line
  have hsame (line : CommandLine) : again.roots (again.enter host disk) line =
      addNames [StringInput.rawName] line.fileNames := roots_requestFor (nodup_rawName _) disk line
  rw [hline, hsame, ← hroots] at hagain
  exact ⟨herrors, Closure.faults_eq_nil_of_covers hsound hseen hagain (covers_terminated _ _ _)
    hfaults⟩

/-- The output of a run that does not end early is compiled to itself. -/
theorem written_of_terminated (hl : settings.DeclaresLibrary) (text : String) (disk : Disk) :
    let request := settings.requestForText text
    let host := Engine.memoryHost settings.configuration
    (request.options host disk).sourceMap = false →
    ¬ request.EndsEarly host disk →
    (settings.requestForText (Target.terminated "\n" text)).written host disk =
      Target.terminated "\n" text := by
  intro request host hm he
  let again := settings.requestForText (Target.terminated "\n" text)
  have hmaps : (again.options host disk).sourceMap = false :=
    (congrArg Options.sourceMap (options_requestFor _ _ _ _ _)).trans hm
  have hends : ¬ again.EndsEarly host disk := by
    rintro ⟨hfull, hearly⟩
    exact he ⟨hfull, fun hnil => hearly (early_terminated settings text disk hnil)⟩
  rw [written_of_text hl _ disk hmaps, if_neg hends, Target.terminated_terminated]

/-- One text compiles to all outputs that it has under a name, in the order of their names; when no
source map is wanted, that compiles to itself. Here the library is a declaration file. -/
theorem compiled_text_is_stable (settings : Settings) (text : String) (disk : Disk)
    (hl : FileName.isDeclaration
      (FileName.normalize settings.configuration.defaultLibrary) = true) (ht : text ≠ "") :
    let sources := [Descriptor.string StringInput.rawName text]
    let host := Engine.memoryHost settings.configuration
    let options := ((settings.request sources).commandLine Engine.verbatim host disk).options
    let outcome := Engine.verbatim.compileString settings (.text text) disk
    ∃ result compilation, outcome.result = .ok result ∧ outcome.disk = disk ∧
      (Engine.verbatim.compileStrings settings sources disk).result = .ok compilation ∧
      result = String.join compilation.outputs.values ∧
      (options.sourceMap = false →
        (Engine.verbatim.compileString settings (.text result) disk).result = .ok result) := by
  intro sources host options outcome
  obtain ⟨hresult, hdisk⟩ := compileString_text settings disk ht
  have hhost : host.InMemory := Host.inMemory_memoryHost _
  have hf : (settings.requestForText text).fault? host = none := fault?_requestForText hhost
  have htogether := (Request.run_in_memory hhost hf disk).1
  refine ⟨_, _, hresult, hdisk, htogether, (join_values_of_text hl text disk).symm, fun hm => ?_⟩
  have hwritten := written_of_text hl text disk hm
  by_cases he : (settings.requestForText text).EndsEarly host disk
  · rw [hwritten, if_pos he]
    rfl
  · rw [hwritten, if_neg he]
    have hagain := (compileString_text settings disk (Target.terminated_ne_empty ht)).1
    rw [written_of_terminated hl text disk hm he] at hagain
    exact hagain

/-- Without a full check, a text is compiled to itself in spite of an unknown option, and of a
library and a reference that are not found. -/
theorem compiled_text_is_stable_unchecked :
    let settings : Settings := {
      arguments := .tokens ["--frobnicate"], configuration := { fullTypeCheck := false } }
    let text := "/// <reference path='gone.ts' />\nvar a;"
    let outcome := Engine.verbatim.compileString settings (.text text) emptyDisk
    FileName.isDeclaration (FileName.normalize settings.configuration.defaultLibrary) = true ∧
    text ≠ "" ∧
    ∃ result, outcome.result = .ok result ∧
      result = "/// <reference path='gone.ts' />\nvar a;\n" ∧
      (Engine.verbatim.compileString settings (.text result) emptyDisk).result = .ok result := by
  intro settings text outcome
  have hl : FileName.isDeclaration
      (FileName.normalize settings.configuration.defaultLibrary) = true := by decide +kernel
  have ht : text ≠ "" := by decide
  have hview : outcome.result.toOption =
      some "/// <reference path='gone.ts' />\nvar a;\n" := by decide +kernel
  obtain ⟨result, compilation, hresult, -, -, -, hstable⟩ :=
    compiled_text_is_stable settings text emptyDisk hl ht
  rw [show outcome.result = _ from hresult] at hview
  exact ⟨hl, ht, result, hresult, Option.some.inj hview, hstable (by decide +kernel)⟩

end ScriptHost
