import ScriptHost.CommandLine
import ScriptHost.Reference
import ScriptHost.Task

/-! The sources of a program: its roots and all that their reference directives lead to, what is
referenced before what refers to it. -/

namespace ScriptHost

/-- A place in a source that asks for another source. -/
structure Site where
  source : SourceText
  start : Nat
  length : Nat
  deriving DecidableEq, Repr

/-- The diagnostic at a site, or without a place when a root asks. -/
def Diagnostic.blame (diagnostic : Diagnostic) : Option Site → Diagnostic
  | some site => diagnostic.locate site.source site.start site.length
  | none => diagnostic

namespace Reference

/-- The name that a reference in a source asks for. -/
def target (reference : Reference) (source : SourceText) : String :=
  FileName.combine (FileName.directoryOf source.name) reference.path

/-- The place of a reference in a source. -/
def site (reference : Reference) (source : SourceText) : Site :=
  ⟨source, reference.start, reference.length⟩

end Reference

/-- The references that a program follows from a source. -/
def SourceText.followed (source : SourceText) (options : Options) : List Reference :=
  if options.noResolve then [] else Reference.ofText source.text

/-- A program under construction: the canonical names of what has been asked for so far, the sources
that are complete, and what was wrong with the rest. -/
structure Closure where
  seen : List String := []
  sources : List SourceText := []
  faults : List Diagnostic := []
  deriving DecidableEq, Repr

namespace Closure

def notFound (name : String) : Diagnostic :=
  .error 6053 ("File '" ++ name ++ "' not found.")

def unreadable (name : String) (error : HostError) : Diagnostic :=
  .error 5012 ("Cannot read file '" ++ name ++ "': " ++ error.reason ++ ".")

/-- The closure once a name has been asked for that the host knows by a key. -/
def mark (closure : Closure) (key : String) : Closure :=
  { closure with seen := closure.seen ++ [key] }

def add (closure : Closure) (source : SourceText) : Closure :=
  { closure with sources := closure.sources ++ [source] }

def report (closure : Closure) (diagnostic : Diagnostic) : Closure :=
  { closure with faults := closure.faults ++ [diagnostic] }

/-- Asks for a name that a site names, unless it or one that is the same to the host was asked for
before, and for all that it leads to. No more than `depth` sources are open at a time. -/
def visit (options : Options) : (depth : Nat) → Option Site → (name : String) → Closure →
    Task Closure
  | 0, _, _, closure => .done closure
  | depth + 1, site, name, closure =>
    let name := FileName.normalize name
    .query (.canonicalName name) fun key =>
      if key ∈ closure.seen then .done closure
      else .read name fun answer =>
        match answer with
        | .ok (some text) =>
          let source : SourceText := ⟨name, text⟩
          let inner := (source.followed options).foldlM
            (fun closure reference =>
              visit options depth (some (reference.site source)) (reference.target source) closure)
            (closure.mark key)
          inner.bind fun closure => .done (closure.add source)
        | .ok none => .done ((closure.mark key).report ((notFound name).blame site))
        | .error error => .done ((closure.mark key).report ((unreadable name error).blame site))

/-- The names that a program starts from: the default library, then the root files. -/
def starts (options : Options) (roots : List String) : List String :=
  (if options.noLib then [] else options.defaultLibrary.toList) ++ roots

/-- The closure of root files, on a host that has text under at most `served` names. -/
def ofRoots (served : Nat) (roots : List String) (options : Options) : Task Closure :=
  (starts options roots).foldlM
    (fun closure name => visit options (served + 1) none name closure) {}

end Closure

end ScriptHost
