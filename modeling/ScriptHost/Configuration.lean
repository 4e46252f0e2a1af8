import ScriptHost.Library

/-! Settings that a run and its host share. -/

namespace ScriptHost

/-- Whether meaning is checked, and which library is loaded in place of the bundled one. -/
structure Configuration where
  fullTypeCheck : Bool := true
  library : Option String := none
  deriving DecidableEq, Repr

def Configuration.defaultLibrary (configuration : Configuration) : String :=
  configuration.library.getD Library.bundledName

end ScriptHost
