import ScriptHost.CommandLine

/-! A command line as it is read token by token: what each token changes, and which option is
waiting for its value once it has been read. -/

namespace ScriptHost

variable {options : Options} {option other : ValueOption} {switch : Switch} {value : Option String}

namespace Options

/-- The value of one of the options that have one. -/
def valueOf (options : Options) : ValueOption → Option String
  | .out => options.out
  | .outDir => options.outDir
  | .module => options.module
  | .target => options.target

/-- Whether a switch is turned on. -/
def isOn (options : Options) : Switch → Bool
  | .sourceMap => options.sourceMap
  | .declaration => options.declaration
  | .removeComments => options.removeComments
  | .noImplicitAny => options.noImplicitAny
  | .noLib => options.noLib
  | .noResolve => options.noResolve

@[simp] theorem valueOf_setValue_self : (options.setValue value option).valueOf option = value := by
  cases option <;> rfl

theorem valueOf_setValue_of_ne (h : option ≠ other) :
    (options.setValue value option).valueOf other = options.valueOf other := by
  cases option <;> cases other <;> first | rfl | exact absurd rfl h

@[simp] theorem setValue_setValue {first : Option String} :
    (options.setValue first option).setValue value option = options.setValue value option := by
  cases option <;> rfl

@[simp] theorem isOn_setValue : (options.setValue value option).isOn switch = options.isOn switch := by
  cases option <;> cases switch <;> rfl

@[simp] theorem valueOf_turnOn : (options.turnOn switch).valueOf option = options.valueOf option := by
  cases option <;> cases switch <;> rfl

theorem isOn_turnOn_iff {more : Switch} :
    (options.turnOn more).isOn switch = true ↔ options.isOn switch = true ∨ switch = more := by
  cases more <;> cases switch <;> simp [turnOn, isOn]

@[simp] theorem defaultLibrary_setValue :
    (options.setValue value option).defaultLibrary = options.defaultLibrary := by
  cases option <;> rfl

@[simp] theorem defaultLibrary_turnOn :
    (options.turnOn switch).defaultLibrary = options.defaultLibrary := by
  cases switch <;> rfl

@[simp] theorem valueOf_default : ({} : Options).valueOf option = none := by
  cases option <;> rfl

@[simp] theorem isOn_default : ({} : Options).isOn switch = false := by
  cases switch <;> rfl

end Options

/-- One thing that tokens do to a command line. -/
inductive Change where
  | setValue (option : ValueOption) (value : Option String)
  | turnOn (option : Switch)
  | addFile (name : String)
  | report (fault : Diagnostic)
  deriving DecidableEq

/-- An option that waits for its value, and the name that it was given by. -/
structure Pending where
  option : ValueOption
  name : String
  deriving DecidableEq

namespace Change

/-- The name of the file that a change adds. -/
def file? : Change → Option String
  | .addFile name => some name
  | _ => none

/-- What a change makes of the value of an option, if it is about that option. -/
def value? (option : ValueOption) : Change → Option (Option String)
  | .setValue set value => if set = option then some value else none
  | _ => none

/-- The diagnostic that a change adds. -/
def fault? : Change → Option Diagnostic
  | .report fault => some fault
  | _ => none

theorem value?_eq_some_iff {change : Change} :
    change.value? option = some value ↔ change = .setValue option value := by
  cases change with
  | setValue set given => simp [value?]
  | _ => simp [value?]

theorem mem_filterMap_value?_iff {changes : List Change} :
    value ∈ changes.filterMap (value? option) ↔ .setValue option value ∈ changes := by
  simp [List.mem_filterMap, value?_eq_some_iff]

theorem mem_filterMap_file?_iff {name : String} {changes : List Change} :
    name ∈ changes.filterMap file? ↔ .addFile name ∈ changes := by
  have hf (change : Change) : change.file? = some name ↔ change = .addFile name := by
    cases change <;> simp [file?]
  simp [List.mem_filterMap, hf]

end Change

namespace CommandLine

/-- The diagnostic for a name that no option has. -/
def unknownOption (name : String) : Diagnostic :=
  .error 5023 ("Unknown compiler option '" ++ name ++ "'.")

/-- The diagnostic for an option that gets no value. -/
def missingValue (name : String) : Diagnostic :=
  .error 6044 ("Compiler option '" ++ name ++ "' expects an argument.")

/-- The diagnostic for a response file that cannot be read. -/
def unreadable (name : String) : Diagnostic :=
  .error 6050 ("Unable to open file '" ++ name ++ "'.")

/-- The command line with a change made to it. -/
def apply (line : CommandLine) : Change → CommandLine
  | .setValue option value => { line with options := line.options.setValue value option }
  | .turnOn option => { line with options := line.options.turnOn option }
  | .addFile name => { line with fileNames := line.fileNames ++ [name] }
  | .report fault => { line with errors := line.errors ++ [fault] }

/-- The command line with changes made one after another. -/
def applyAll (line : CommandLine) (changes : List Change) : CommandLine := changes.foldl apply line

section Effects

variable (line : CommandLine) (change : Change) (changes more : List Change)

@[simp] theorem applyAll_nil : line.applyAll [] = line := rfl

@[simp] theorem applyAll_cons :
    line.applyAll (change :: changes) = (line.apply change).applyAll changes := rfl

theorem applyAll_append :
    line.applyAll (changes ++ more) = (line.applyAll changes).applyAll more := List.foldl_append

theorem fileNames_apply : (line.apply change).fileNames = line.fileNames ++ change.file?.toList := by
  cases change <;> simp [apply, Change.file?]

theorem errors_apply : (line.apply change).errors = line.errors ++ change.fault?.toList := by
  cases change <;> simp [apply, Change.fault?]

theorem isOn_apply_iff : (line.apply change).options.isOn switch = true ↔
    line.options.isOn switch = true ∨ .turnOn switch = change := by
  cases change with
  | turnOn more => simp only [apply, Options.isOn_turnOn_iff, Change.turnOn.injEq]
  | _ => simp [apply]

theorem valueOf_apply : (line.apply change).options.valueOf option =
    (change.value? option).getD (line.options.valueOf option) := by
  cases change with
  | setValue set value =>
    rw [Change.value?]
    split
    · next h => simp [apply, h]
    · next h => exact Options.valueOf_setValue_of_ne h
  | _ => simp [apply, Change.value?]

theorem fileNames_applyAll :
    (line.applyAll changes).fileNames = line.fileNames ++ changes.filterMap Change.file? := by
  induction changes generalizing line with
  | nil => simp
  | cons change changes ih =>
    rw [applyAll_cons, ih, fileNames_apply]
    cases h : change.file? <;> simp [h]

theorem errors_applyAll :
    (line.applyAll changes).errors = line.errors ++ changes.filterMap Change.fault? := by
  induction changes generalizing line with
  | nil => simp
  | cons change changes ih =>
    rw [applyAll_cons, ih, errors_apply]
    cases h : change.fault? <;> simp [h]

theorem isOn_applyAll_iff : (line.applyAll changes).options.isOn switch = true ↔
    line.options.isOn switch = true ∨ .turnOn switch ∈ changes := by
  induction changes generalizing line with
  | nil => simp
  | cons change changes ih => rw [applyAll_cons, ih, isOn_apply_iff, List.mem_cons, or_assoc]

/-- The last change of a value counts, and where there is none the value stays. -/
theorem valueOf_applyAll : (line.applyAll changes).options.valueOf option =
    (changes.filterMap (Change.value? option)).getLast?.getD (line.options.valueOf option) := by
  induction changes generalizing line with
  | nil => rfl
  | cons change changes ih =>
    rw [applyAll_cons, ih, valueOf_apply]
    cases h : change.value? option <;> simp [h, List.getLast?_cons]

theorem defaultLibrary_applyAll :
    (line.applyAll changes).options.defaultLibrary = line.options.defaultLibrary := by
  induction changes generalizing line with
  | nil => rfl
  | cons change changes ih =>
    rw [applyAll_cons, ih]
    cases change <;> simp [apply]

end Effects

end CommandLine

end ScriptHost
