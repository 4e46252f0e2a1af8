import ScriptHost.Proofs.Compilation.Alike
import ScriptHost.Proofs.Compilation.Outputs

/-! Runs one after another on a host in memory: each is like a fresh run on all sources so far, and
its outputs lie over those of the runs before it. -/

namespace ScriptHost

/-- Runs on one host, the latest first, each with its result. -/
inductive Session (engine : Engine) (host : Host) (disk : Disk) :
    List (Request × Compilation) → Host → Disk → Prop where
  | start : Session engine host disk [] host disk
  | run {runs request compilation} {after : Host} {current : Disk}
      (before : Session engine host disk runs after current)
      (ok : (engine.run request after current).result = .ok compilation) :
      Session engine host disk ((request, compilation) :: runs)
        (engine.run request after current).host (engine.run request after current).disk

/-- The sources of requests, the latest of which comes first: their names in the order in which they
were first given, each with the text that it was last given. -/
def mergedSources (requests : List Request) : List (String × String) :=
  latest (requests.reverse.flatMap Request.texts)

/-- How the sources of a request are compiled. -/
def Request.settings (request : Request) : Settings :=
  ⟨request.arguments, request.configuration, request.callback⟩

/-- A fresh run, as the latest of requests asks for it, on the sources of all of them. -/
def Request.anew (request : Request) (earlier : List Request) (disk : Disk) : Outcome Compilation :=
  Engine.verbatim.compileStrings request.settings
    ((mergedSources (request :: earlier)).map Descriptor.ofEntry) disk

/-- The outputs of fresh runs, those of a later run over those of an earlier one. -/
def outputsAnew (disk : Disk) : List Request → NameMap String
  | [] => .empty
  | request :: earlier =>
    match (request.anew earlier disk).result with
    | .ok fresh => (outputsAnew disk earlier).overlay fresh.outputs
    | .error _ => outputsAnew disk earlier

/-- A request gives its sources as strings, and names the library of the host. -/
structure Request.Suits (request : Request) (host : Host) : Prop where
  strings : ∀ source ∈ request.sources, source.medium = .string
  library : request.configuration.defaultLibrary = host.defaultLibrary

variable {request other : Request} {start host second after : Host} {disk current : Disk}
  {compilation : Compilation} {runs : List (Request × Compilation)} {requests : List Request}

/-- What runs of requests leave behind on a host: their sources, and the outputs of fresh runs. -/
structure Host.Carries (start host : Host) (disk : Disk) (requests : List Request) : Prop where
  inMemory : host.InMemory
  configuration : host.configuration = start.configuration
  platform : host.platform = start.platform
  registry : host.registry = (start.addSources (requests.reverse.flatMap Request.texts)).registry
  outputs : host.outputs = outputsAnew disk requests

/-- The request of a fresh run. -/
def Request.merged (request : Request) (earlier : List Request) : Request :=
  request.settings.requestFor (mergedSources (request :: earlier))

theorem result_anew (request : Request) (earlier : List Request) (disk : Disk) :
    let host := Engine.memoryHost request.configuration
    (request.anew earlier disk).result =
      .ok ⟨NameMap.empty.putAll ((request.merged earlier).writes host disk),
        (request.merged earlier).maps host disk,
        (Engine.verbatim.early (request.merged earlier) host disk).map Diagnostic.render⟩ := by
  intro host
  have hn : ((request.merged earlier).sources.map Descriptor.name).Nodup :=
    (names_ofEntry _).symm ▸ nodup_latest _
  exact (Request.run_in_memory (Host.inMemory_memoryHost _)
    (Request.fault?_in_memory (Host.inMemory_memoryHost _) hn) disk).1

/-- A host carries the texts of one more request once they are registered with it. -/
theorem Host.Carries.registry_addSources (h : start.Carries host disk requests)
    (request : Request) : (host.addSources request.texts).registry =
      (start.addSources ((request :: requests).reverse.flatMap Request.texts)).registry := by
  rw [registry_addSources_congr h.registry, ← addSources_append, List.reverse_cons,
    List.flatMap_append, List.flatMap_singleton]

/-- A host without sources on the platform of a fresh run. -/
structure Host.Blank (host : Host) : Prop where
  sources : host.sources = .empty
  names : host.sourceNames = []
  platform : host.platform = {}

/-- A run on a host that carries the sources of earlier requests asks for the same as a fresh run.
-/
theorem Host.Carries.alike (h : start.Carries host disk requests) (hb : start.Blank)
    (hs : request.Suits start) :
    Request.Alike request (request.merged requests) host
      (Engine.memoryHost request.configuration) disk := by
  have hl : host.defaultLibrary = (Engine.memoryHost request.configuration).defaultLibrary := by
    rw [Host.defaultLibrary, h.configuration]
    exact hs.library.symm
  have hline : request.commandLine Engine.verbatim host disk =
      (request.merged requests).commandLine Engine.verbatim
        (Engine.memoryHost request.configuration) disk :=
    Request.commandLine_congr rfl hl _ _
  have hp : host.platform = (Engine.memoryHost request.configuration).platform :=
    h.platform.trans hb.platform
  have hempty : start.registry = (Engine.memoryHost request.configuration).registry := by
    rw [Host.registry, hb.sources, hb.names]
    rfl
  have hmerged : (host.addSources request.texts).registry =
      ((Engine.memoryHost request.configuration).addSources
        (request.merged requests).texts).registry := by
    rw [h.registry_addSources, Host.registry_addSources_congr hempty, Request.merged,
      texts_requestFor, mergedSources, Host.registry_addSources_latest rfl rfl]
  exact ⟨hline, Request.closure_congr h.inMemory (Host.inMemory_memoryHost _) hp hl hs.strings
    (medium_requestFor _ _) hline hmerged, rfl, hp⟩

theorem outputsAnew_of_ok (h : (request.anew requests disk).result = .ok compilation) :
    outputsAnew disk (request :: requests) =
      (outputsAnew disk requests).overlay compilation.outputs := by
  rw [outputsAnew, h]

theorem names_outputsAnew (disk : Disk) (request : Request) (requests : List Request) :
    (outputsAnew disk requests).names ⊆ (outputsAnew disk (request :: requests)).names := by
  rw [outputsAnew_of_ok (result_anew request requests disk)]
  exact NameMap.names_subset_overlay _ _

/-- One run keeps what a host carries, and gives what a fresh run gives. -/
theorem Host.Carries.run (h : start.Carries host disk requests) (hb : start.Blank)
    (hs : request.Suits start)
    (ok : (Engine.verbatim.run request host disk).result = .ok compilation) :
    let outcome := Engine.verbatim.run request host disk
    (outcome.disk = disk ∧ start.Carries outcome.host disk (request :: requests)) ∧
    ∃ fresh, (request.anew requests disk).result = .ok fresh ∧
      compilation = { fresh with outputs := outputsAnew disk (request :: requests) } := by
  intro outcome
  have hf := (Engine.enters_of_ok ok).1
  obtain ⟨hresult, -, hdisk⟩ := Request.run_in_memory h.inMemory hf disk
  obtain ⟨forwarded, hhost⟩ := Request.exists_host_of_run h.inMemory hf disk
  have hafter : outcome.host = _ := hhost
  have hlike := h.alike hb hs
  -- The host writes over what it has, where the fresh run writes the same into no outputs.
  have houtputs : host.outputs.putAll (request.writes host disk) =
      outputsAnew disk (request :: requests) := by
    rw [outputsAnew_of_ok (result_anew request requests disk), ← h.outputs, ← hlike.writes]
    exact NameMap.putAll_eq_overlay _ _
  refine ⟨⟨hdisk, ?_⟩, _, result_anew request requests disk, ?_⟩
  · obtain ⟨sources, names, hadd⟩ := Host.exists_addSources_eq host.forgetDirectories request.texts
    have hregistry : outcome.host.registry =
        (host.forgetDirectories.addSources request.texts).registry := by
      rw [hafter]
      rfl
    have hadded : outcome.host.registry = (host.addSources request.texts).registry :=
      hregistry.trans (host.registry_addSources_forget request.texts)
    rw [hadd] at hafter
    refine ⟨?_, ?_, ?_, hadded.trans (h.registry_addSources request), ?_⟩
    · rw [hafter]
      exact ⟨h.inMemory.reads, h.inMemory.writes⟩
    · rw [hafter]
      exact h.configuration
    · rw [hafter]
      exact h.platform
    · rw [hafter]
      exact houtputs
  · rw [← hlike.early, ← hlike.maps, ← houtputs]
    exact Except.ok.inj (ok.symm.trans hresult)

/-- The runs of a session keep what its host carries, and none loses an output. -/
theorem Session.carries (h : Session Engine.verbatim start disk runs host current)
    (hi : start.Carries start disk []) (hb : start.Blank) (hs : ∀ run ∈ runs, run.1.Suits start) :
    current = disk ∧ start.Carries host disk (runs.map Prod.fst) ∧
      ∀ run ∈ runs, run.2.outputs.names ⊆ host.outputs.names := by
  induction h with
  | start => exact ⟨rfl, hi, by simp⟩
  | @run runs request compilation after current before ok ih =>
    have hfirst : request.Suits start := hs _ List.mem_cons_self
    obtain ⟨rfl, hcarries, hnames⟩ := ih fun run hr => hs run (List.mem_cons_of_mem _ hr)
    obtain ⟨⟨hdisk, hafter⟩, fresh, -, hc⟩ := hcarries.run hb hfirst ok
    refine ⟨hdisk, hafter, List.forall_mem_cons.2 ⟨?_, fun run hr => ?_⟩⟩
    · rw [hc, hafter.outputs]
      exact List.Subset.refl _
    · rw [hafter.outputs]
      refine List.Subset.trans (hnames run hr) ?_
      rw [hcarries.outputs]
      exact names_outputsAnew _ _ _

/-- What came before a run of a session is a session. -/
theorem Session.before {later : List (Request × Compilation)}
    (h : Session Engine.verbatim start disk (later ++ (request, compilation) :: runs) host
      current) :
    ∃ earlier now, Session Engine.verbatim start disk runs earlier now ∧
      (Engine.verbatim.run request earlier now).result = .ok compilation := by
  induction later generalizing host current with
  | nil =>
    cases h with
    | run before ok => exact ⟨_, _, before, ok⟩
  | cons run later ih =>
    cases h with
    | run before ok => exact ih before

/-- On a host in memory that starts without sources and outputs, every run of a session gives the
diagnostics and source maps of a fresh run on the sources of all runs up to it. Its outputs are
those of the fresh runs, laid one over another, and no output of an earlier run is gone. -/
theorem session_as_anew (start : Host) (disk : Disk) (hm : start.InMemory)
    (hb : start.Blank) (houtputs : start.outputs = .empty)
    (runs : List (Request × Compilation)) (host : Host) (current : Disk)
    (hs : ∀ run ∈ runs, run.1.Suits start)
    (h : Session Engine.verbatim start disk runs host current) :
    ∀ later request compilation earlier, runs = later ++ (request, compilation) :: earlier →
      let requests := earlier.map Prod.fst
      (∃ fresh, (request.anew requests disk).result = .ok fresh ∧
        compilation.diagnostics = fresh.diagnostics ∧ compilation.sourceMaps = fresh.sourceMaps) ∧
      compilation.outputs = outputsAnew disk (request :: requests) ∧
      ∀ run ∈ earlier, run.2.outputs.names ⊆ compilation.outputs.names := by
  rintro later request compilation earlier rfl requests
  obtain ⟨after, now, hbefore, ok⟩ := h.before
  have hi : start.Carries start disk [] := ⟨hm, rfl, rfl, rfl, houtputs⟩
  have hrequest : request.Suits start :=
    hs _ (List.mem_append_right _ List.mem_cons_self)
  have hearlier : ∀ run ∈ earlier, run.1.Suits start :=
    fun run hr => hs run (List.mem_append_right _ (List.mem_cons_of_mem _ hr))
  obtain ⟨rfl, hcarries, hnames⟩ := hbefore.carries hi hb hearlier
  obtain ⟨-, fresh, hfresh, hc⟩ := hcarries.run hb hrequest ok
  subst hc
  refine ⟨⟨fresh, hfresh, rfl, rfl⟩, rfl, fun run hr => ?_⟩
  refine List.Subset.trans (hnames run hr) ?_
  rw [hcarries.outputs]
  exact names_outputsAnew _ _ _

/-- A request for texts, with options that leave the library out. -/
def bareRequest (tokens : List String) (sources : List (String × String)) : Request :=
  (Settings.ofTokens ("--noLib" :: tokens)).requestFor sources

theorem suits_bareRequest (tokens : List String) (sources : List (String × String)) :
    (bareRequest tokens sources).Suits (Engine.memoryHost {}) where
  strings := medium_requestFor _ _
  library := rfl

/-- The second run replaces a source and ends early, the third replaces it again and writes
elsewhere. -/
theorem session_as_anew_replaced :
    let start := Engine.memoryHost {}
    let first := bareRequest [] [("a.ts", "var a;\n"), ("b.ts", "var b;\n")]
    let second := bareRequest [] [("a.ts", "/// <reference path='gone.ts' />\n")]
    let third := bareRequest ["--outDir", "out"] [("c.ts", "var c;\n"), ("a.ts", "var d;\n")]
    ∃ one two three host disk,
      Session Engine.verbatim start emptyDisk [(third, three), (second, two), (first, one)] host
        disk ∧
      two.diagnostics = ["a.ts(1,1): error TS6053: File 'gone.ts' not found."] ∧
      two.outputs.entries = [("a.js", "var a;\n"), ("b.js", "var b;\n")] ∧
      three.diagnostics = [] ∧
      three.outputs.entries = [("a.js", "var a;\n"), ("b.js", "var b;\n"),
        ("out/a.js", "var d;\n"), ("out/b.js", "var b;\n"), ("out/c.js", "var c;\n")] := by
  intro start first second third
  let afterFirst := Engine.verbatim.run first start emptyDisk
  let afterSecond := Engine.verbatim.run second afterFirst.host afterFirst.disk
  let afterThird := Engine.verbatim.run third afterSecond.host afterSecond.disk
  have hone : afterFirst.result.toOption.map Compilation.diagnostics = some [] := by decide +kernel
  have htwo : afterSecond.result.toOption.map Compilation.diagnostics =
      some ["a.ts(1,1): error TS6053: File 'gone.ts' not found."] := by decide +kernel
  have hthree : afterThird.result.toOption.map Compilation.diagnostics = some [] := by
    decide +kernel
  obtain ⟨one, hone, -⟩ := exists_ok_of_map hone
  obtain ⟨two, htwo, hmissing⟩ := exists_ok_of_map htwo
  obtain ⟨three, hthree, hclean⟩ := exists_ok_of_map hthree
  have hsession : Session Engine.verbatim start emptyDisk
      [(third, three), (second, two), (first, one)] afterThird.host afterThird.disk :=
    ((Session.start.run hone).run htwo).run hthree
  have hsuits : ∀ run ∈ [(third, three), (second, two), (first, one)], run.1.Suits start := by
    intro run hr
    simp only [List.mem_cons, List.not_mem_nil, or_false] at hr
    rcases hr with rfl | rfl | rfl
    · exact suits_bareRequest _ _
    · exact suits_bareRequest _ _
    · exact suits_bareRequest _ _
  have hall := session_as_anew start emptyDisk (Host.inMemory_memoryHost _) ⟨rfl, rfl, rfl⟩ rfl _ _
    _ hsuits hsession
  have hkept : two.outputs = outputsAnew emptyDisk [second, first] :=
    (hall [(third, three)] second two [(first, one)] rfl).2.1
  have hlaid : three.outputs = outputsAnew emptyDisk [third, second, first] :=
    (hall [] third three [(second, two), (first, one)] rfl).2.1
  refine ⟨one, two, three, _, _, hsession, hmissing, ?_, hclean, ?_⟩
  · rw [hkept]
    decide +kernel
  · rw [hlaid]
    decide +kernel

end ScriptHost
