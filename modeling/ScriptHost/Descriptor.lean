import ScriptHost.Failure

/-! Descriptions of what is to be compiled: a file by its name, or text under a name. -/

namespace ScriptHost

/-- Where sources come from, or outputs go. -/
inductive Medium where
  | file
  | string
  deriving DecidableEq, Repr

/-- One source that a run is given. -/
inductive Descriptor where
  | file (name : String)
  | string (name contents : String)
  deriving DecidableEq, Repr

namespace Descriptor

def medium : Descriptor → Medium
  | file _ => .file
  | string _ _ => .string

def name : Descriptor → String
  | file name => name
  | string name _ => name

/-- The text of a source that is not a file. -/
def contents? : Descriptor → Option String
  | file _ => none
  | string _ contents => some contents

end Descriptor

/-- Counts the names that were made up for texts without one. -/
structure NameCounter where
  used : Nat := 0
  deriving DecidableEq, Repr

namespace NameCounter

def nameAt (index : Nat) : String := "input_string" ++ toString index ++ ".ts"

def next (counter : NameCounter) : String × NameCounter :=
  (nameAt (counter.used + 1), ⟨counter.used + 1⟩)

/-- A text under a made-up name, and the counter after it. -/
def describe (counter : NameCounter) (text : String) : Descriptor × NameCounter :=
  let (name, counter) := counter.next
  (.string name text, counter)

def describeAll (counter : NameCounter) : List String → List Descriptor × NameCounter
  | [] => ([], counter)
  | text :: texts =>
    let (first, counter) := counter.describe text
    let (rest, counter) := counter.describeAll texts
    (first :: rest, counter)

end NameCounter

end ScriptHost
