import ScriptHost.Diagnostic
import ScriptHost.CommandLine.ResponseFile

/-! Engine options and the command line that sets them. -/

namespace ScriptHost

/-- What an engine is asked to do besides compiling its files. -/
structure Options where
  out : Option String := none
  outDir : Option String := none
  module : Option String := none
  target : Option String := none
  sourceMap : Bool := false
  declaration : Bool := false
  removeComments : Bool := false
  noImplicitAny : Bool := false
  noLib : Bool := false
  noResolve : Bool := false
  /-- The library that an engine loads ahead of all other files. -/
  defaultLibrary : Option String := none
  deriving DecidableEq, Repr

/-- The options that take the next token as their value. -/
inductive ValueOption where
  | out
  | outDir
  | module
  | target
  deriving DecidableEq, Repr

/-- The options that stand alone. -/
inductive Switch where
  | sourceMap
  | declaration
  | removeComments
  | noImplicitAny
  | noLib
  | noResolve
  deriving DecidableEq, Repr

/-- What the name of an option stands for. -/
inductive OptionKind where
  | value (option : ValueOption)
  | switch (option : Switch)
  | unknown
  deriving DecidableEq, Repr

namespace Options

def setValue (options : Options) (value : Option String) : ValueOption → Options
  | .out => { options with out := value }
  | .outDir => { options with outDir := value }
  | .module => { options with module := value }
  | .target => { options with target := value }

def turnOn (options : Options) : Switch → Options
  | .sourceMap => { options with sourceMap := true }
  | .declaration => { options with declaration := true }
  | .removeComments => { options with removeComments := true }
  | .noImplicitAny => { options with noImplicitAny := true }
  | .noLib => { options with noLib := true }
  | .noResolve => { options with noResolve := true }

end Options

/-- A letter from `A` to `Z` in lower case, and any other character as it is. -/
def lowerLetter (c : Char) : Char := c.toLower

/-- The option of a name, in whatever case its letters from `A` to `Z` are. -/
def OptionKind.named (name : String) : OptionKind :=
  match String.ofList (name.toList.map lowerLetter) with
  | "out" => .value .out
  | "outdir" => .value .outDir
  | "m" | "module" => .value .module
  | "t" | "target" => .value .target
  | "sourcemap" => .switch .sourceMap
  | "d" | "declaration" => .switch .declaration
  | "removecomments" => .switch .removeComments
  | "noimplicitany" => .switch .noImplicitAny
  | "nolib" => .switch .noLib
  | "noresolve" => .switch .noResolve
  | _ => .unknown

/-- What a command line asks for, and what is wrong with it. -/
structure CommandLine where
  options : Options := {}
  fileNames : List String := []
  errors : List Diagnostic := []
  deriving DecidableEq, Repr

/-- The text of a response file, where it can be read. -/
abbrev ResponseFiles := String → Option String

namespace CommandLine

/-- The name in an option token: what follows its one or two dashes, unless that is empty. -/
def optionName? (token : String) : Option String :=
  match token.toList with
  | '-' :: '-' :: name => if name.isEmpty then none else some (String.ofList name)
  | '-' :: name => if name.isEmpty then none else some (String.ofList name)
  | _ => none

/-- The name of the response file that a token asks for. -/
def responseName? (token : String) : Option String :=
  match token.toList with
  | '@' :: name => some (String.ofList name)
  | _ => none

def report (line : CommandLine) (code : Nat) (message : String) : CommandLine :=
  { line with errors := line.errors ++ [.error code message] }

/-- The command line with an option that has no value left to take. -/
def setMissing (line : CommandLine) (option : ValueOption) (name : String) : CommandLine :=
  report { line with options := line.options.setValue none option } 6044
    ("Compiler option '" ++ name ++ "' expects an argument.")

/-- Reads tokens, none of them empty, onto a command line. Where `expand` has an answer for a
token, that is the command line after it. -/
def readTokens (expand : String → CommandLine → Option CommandLine) :
    List String → CommandLine → CommandLine
  | [], line => line
  | token :: rest, line =>
    match expand token line with
    | some expanded => readTokens expand rest expanded
    | none =>
      match optionName? token with
      | none => readTokens expand rest { line with fileNames := line.fileNames ++ [token] }
      | some name =>
        match OptionKind.named name with
        | .switch option =>
          readTokens expand rest { line with options := line.options.turnOn option }
        | .unknown =>
          readTokens expand rest (line.report 5023 ("Unknown compiler option '" ++ name ++ "'."))
        | .value option =>
          match rest with
          | [] => line.setMissing option name
          | value :: rest =>
            readTokens expand rest
              { line with options := line.options.setValue (some value) option }

/-- Reads tokens without a look at response files. -/
def readPlain (tokens : List String) (line : CommandLine) : CommandLine :=
  readTokens (fun _ _ => none) (tokens.filter (· != "")) line

/-- Reads the tokens of a response file, which names no further ones. -/
def readResponse (files : ResponseFiles) (name : String) (line : CommandLine) : CommandLine :=
  match files name with
  | some text => readPlain (ResponseFile.tokens text) line
  | none => line.report 6050 ("Unable to open file '" ++ name ++ "'.")

/-- The command line after a token that asks for a response file. -/
def expandResponse (files : ResponseFiles) (token : String) (line : CommandLine) :
    Option CommandLine :=
  (responseName? token).map fun name => readResponse files name line

/-- The command line that tokens make up. Empty tokens count for nothing, and `@name` stands for
the tokens of the response file of that name. -/
def parse (files : ResponseFiles) (tokens : List String) : CommandLine :=
  readTokens (expandResponse files) (tokens.filter (· != "")) {}

end CommandLine

/-- Arguments as a caller gives them: tokens, or a command line that is already parsed. -/
inductive Arguments where
  | tokens (tokens : List String)
  | parsed (line : CommandLine)

namespace Arguments

def empty : Arguments := tokens []

/-- Arguments in one text, with white space between the tokens. -/
def ofText (text : String) : Arguments := tokens (Text.words text)

end Arguments

end ScriptHost
