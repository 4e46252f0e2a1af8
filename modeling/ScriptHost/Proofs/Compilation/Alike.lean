import ScriptHost.Proofs.Compilation.Memory

/-! Runs in memory that ask for the same: they have the same closure, diagnostics and outputs. -/

namespace ScriptHost

variable {request other : Request} {host second : Host} {disk : Disk}

namespace Request

theorem commandLine_congr (ha : request.arguments = other.arguments)
    (hl : host.defaultLibrary = second.defaultLibrary) (engine : Engine) (disk : Disk) :
    request.commandLine engine host disk = other.commandLine engine second disk := by
  rw [commandLine, commandLine, ha, hl]

/-- With strings alone, the names that were registered are all that is given. -/
theorem roots_of_strings (h : host.readsFrom = .string)
    (hs : ∀ source ∈ request.sources, source.medium = .string) (line : CommandLine) :
    request.roots host line = addNames host.sourceNames line.fileNames := by
  have hf : request.sources.filter (·.medium == .file) = [] := by
    refine List.filter_eq_nil_iff.2 fun source hm => ?_
    rw [hs source hm]
    decide
  rw [roots, h, hf, List.map_nil, List.append_nil]

/-- Two requests on hosts of one platform ask for the same: by their arguments, by the sources that
are registered once they have entered, and by the check that they want. -/
structure Alike (request other : Request) (host second : Host) (disk : Disk) : Prop where
  line : request.commandLine Engine.verbatim host disk =
    other.commandLine Engine.verbatim second disk
  closure : request.closure host disk = other.closure second disk
  configuration : request.configuration = other.configuration
  platform : host.platform = second.platform

/-- The closure of a run may be taken with the answers of another run, where they are the same. -/
theorem closure_of_readSource (hp : host.platform = second.platform)
    (hline : request.commandLine Engine.verbatim host disk =
      other.commandLine Engine.verbatim second disk)
    (hserved : (request.enter host disk).served = (other.enter second disk).served)
    (hread : (request.enter host disk).readSource disk =
      (other.enter second disk).readSource disk) :
    let line := request.commandLine Engine.verbatim host disk
    let entered := request.enter host disk
    other.closure second disk =
      (Closure.ofRoots entered.served (other.roots (other.enter second disk) line)
        line.options).value (entered.answers disk) := by
  have hplatform : (other.enter second disk).platform = (request.enter host disk).platform := by
    rw [platform_enter, platform_enter, hp]
  simp only [closure]
  rw [hline, hserved]
  exact (Closure.only_ofRoots _ _ _).value_congr (congrArg Platform.canonicalName hplatform)
    fun name _ => (congrFun hread name).symm

/-- Runs in memory with strings alone build the same closure when they end up with the same
sources and arguments. -/
theorem closure_congr (hhost : host.InMemory) (hsecond : second.InMemory)
    (hp : host.platform = second.platform) (hl : host.defaultLibrary = second.defaultLibrary)
    (hm : ∀ source ∈ request.sources, source.medium = .string)
    (ho : ∀ source ∈ other.sources, source.medium = .string)
    (hline : request.commandLine Engine.verbatim host disk =
      other.commandLine Engine.verbatim second disk)
    (hs : (host.addSources request.texts).registry = (second.addSources other.texts).registry) :
    request.closure host disk = other.closure second disk := by
  have hregistry : (request.enter host disk).registry = (other.enter second disk).registry := by
    rw [registry_enter request hhost, registry_enter other hsecond, hs]
  obtain ⟨hsources, hnames⟩ := Prod.mk.inj hregistry
  have hentered := hhost.enter request disk
  have hagain := hsecond.enter other disk
  have hserved : (request.enter host disk).served = (other.enter second disk).served := by
    rw [hentered.served, hagain.served]
    exact congrArg (NameMap.size · + 3) hsources
  have hlibrary : (request.enter host disk).defaultLibrary =
      (other.enter second disk).defaultLibrary := by
    rw [defaultLibrary_enter, defaultLibrary_enter, hl]
  have hread : (request.enter host disk).readSource disk =
      (other.enter second disk).readSource disk :=
    Host.readSource_congr (hentered.reads.trans hagain.reads.symm) hsources hlibrary disk
  rw [closure_of_readSource hp hline hserved hread, roots_of_strings hagain.readsFrom ho,
    ← hnames, ← roots_of_strings hentered.readsFrom hm]
  rfl

namespace Alike

theorem early (h : Alike request other host second disk) :
    Engine.verbatim.early request host disk = Engine.verbatim.early other second disk := by
  rw [early_verbatim, early_verbatim, h.line, h.closure]

theorem options (h : Alike request other host second disk) :
    request.options host disk = other.options second disk := congrArg CommandLine.options h.line

theorem targets (h : Alike request other host second disk) :
    request.targets host disk = other.targets second disk := by
  rw [Request.targets, Request.targets, h.early, h.configuration, h.closure, h.options]

theorem writes (h : Alike request other host second disk) :
    request.writes host disk = other.writes second disk := by
  rw [Request.writes, Request.writes, h.targets, h.options, Host.newLine, h.platform, Host.newLine]

theorem maps (h : Alike request other host second disk) :
    request.maps host disk = other.maps second disk := by
  rw [Request.maps, Request.maps, h.targets, h.options]

end Alike

end Request

end ScriptHost
