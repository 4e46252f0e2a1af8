/-! The arguments of the command-line tool. -/

namespace ScriptHost

/-- What the tool is asked to do. -/
structure Invocation where
  inputs : List String := []
  stdin : Bool := false
  print : Bool := false
  library : Option String := none
  noTypeCheck : Bool := false
  engineArguments : List String := []
  deriving DecidableEq, Repr

namespace Invocation

/-- What arguments amount to. -/
inductive Parsed where
  | run (invocation : Invocation)
  /-- The arguments ask for a description of the tool. -/
  | help
  | rejected
  deriving DecidableEq, Repr

/-- What an argument in front of `--` is. -/
inductive Kind where
  | separator
  | input
  | stdin
  | print
  | noTypeCheck
  /-- The library, and its name if it is joined to the flag. -/
  | library (joined : Option String)
  | help
  | unknown
  deriving DecidableEq, Repr

/-- The kind of an argument. A lone dash is an input. -/
def kind (argument : String) : Kind :=
  match argument.toList with
  | ['-', '-'] => .separator
  | '-' :: '-' :: flag =>
    match String.ofList flag with
    | "stdin" => .stdin
    | "print" => .print
    | "no-type-check" => .noTypeCheck
    | "lib" => .library none
    | "help" | "version" => .help
    | _ => ("lib=".toList.isPrefixOf? flag).elim .unknown fun name =>
        .library (some (String.ofList name))
  | '-' :: letter :: _ => if letter = 'h' ∨ letter = 'V' then .help else .unknown
  | _ => .input

/-- The invocation with a library named; it may be named once, and not by an empty name. -/
def withLibrary? (invocation : Invocation) (name : String) : Option Invocation :=
  if invocation.library.isSome || name.isEmpty then none
  else some { invocation with library := some name }

/-- Reads arguments onto an invocation. No flag may be repeated, and everything behind `--` goes to
the engine. -/
def read (invocation : Invocation) : List String → Parsed
  | [] => .run invocation
  | argument :: rest =>
    match kind argument with
    | .separator => .run { invocation with engineArguments := rest }
    | .input =>
      if argument.isEmpty then .rejected
      else read { invocation with inputs := invocation.inputs ++ [argument] } rest
    | .stdin =>
      if invocation.stdin then .rejected else read { invocation with stdin := true } rest
    | .print =>
      if invocation.print then .rejected else read { invocation with print := true } rest
    | .noTypeCheck =>
      if invocation.noTypeCheck then .rejected
      else read { invocation with noTypeCheck := true } rest
    | .library (some name) =>
      match invocation.withLibrary? name with
      | some invocation => read invocation rest
      | none => .rejected
    | .library none =>
      match rest with
      | [] => .rejected
      | name :: rest =>
        if kind name = .input then
          match invocation.withLibrary? name with
          | some invocation => read invocation rest
          | none => .rejected
        else .rejected
    | .help => .help
    | .unknown => .rejected

def parse (arguments : List String) : Parsed := read {} arguments

end Invocation

end ScriptHost
