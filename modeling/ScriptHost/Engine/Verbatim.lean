import ScriptHost.Closure
import ScriptHost.Target

/-! The engine that does no analysis: it follows references and emits its sources unchanged. -/

namespace ScriptHost

/-- The program of a closure: nothing is wrong with its meaning. -/
def Closure.program (closure : Closure) (options : Options) : Program where
  sources := closure.sources
  early := closure.faults
  checker _ := ⟨[], emitProgram options closure.sources⟩

namespace Engine

/-- The engine without analysis. -/
def verbatim : Engine where
  build served roots options :=
    (Closure.ofRoots served roots options).bind fun closure => .done (closure.program options)

/-- The engine that builds the programs of another one and changes each. -/
def refine (engine : Engine) (change : Program → Program) : Engine where
  parse := engine.parse
  build served roots options :=
    (engine.build served roots options).bind fun program => .done (change program)

end Engine

end ScriptHost
