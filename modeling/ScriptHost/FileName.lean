import ScriptHost.Text.Utf8

/-! File names: a root and slash-separated segments. Sources and outputs are known by their names,
so a name is brought into normal form as text, without a look at any disk. -/

namespace ScriptHost.FileName

/-- The name with a slash for every backslash. -/
def slashed (cs : List Char) : List Char :=
  cs.map fun c => if c = '\\' then '/' else c

/-- The root of a name, and what follows it. The roots are `/`, a server such as `//server/`
(or `//` when nothing ends the server), and a drive such as `c:` or `c:/`. -/
def splitRoot : List Char → List Char × List Char
  | '/' :: '/' :: rest =>
    match rest.dropWhile (· != '/') with
    | [] => (['/', '/'], rest)
    | _ :: path => ('/' :: '/' :: rest.takeWhile (· != '/') ++ ['/'], path)
  | '/' :: rest => (['/'], rest)
  | drive :: ':' :: rest =>
    if drive.isAlpha then
      match rest with
      | '/' :: path => ([drive, ':', '/'], path)
      | _ => ([drive, ':'], rest)
    else ([], drive :: ':' :: rest)
  | cs => ([], cs)

def root (cs : List Char) : List Char := (splitRoot cs).1

theorem splitRoot_append (cs : List Char) : (splitRoot cs).1 ++ (splitRoot cs).2 = cs := by
  unfold splitRoot
  split
  · rename_i rest
    have h := List.takeWhile_append_dropWhile (p := (· != '/')) (l := rest)
    split
    · simp
    · rename_i c path hdrop
      have hc : c = '/' := by
        have := List.head?_dropWhile_not (· != '/') rest
        simpa [hdrop] using this
      rw [hdrop, hc] at h
      simpa using h
  · simp
  · split
    · split <;> simp
    · simp
  · simp

/-- Whether a segment stands for the directory that it is in. -/
def isIdle (segment : List Char) : Bool := segment == [] || segment == ['.']

/-- Adds a segment to a stack whose top is the innermost segment. A `..` removes a plain segment;
above everything it is kept in a name without a root, and dropped below a root. -/
def push (rooted : Bool) (stack : List (List Char)) (segment : List Char) : List (List Char) :=
  if isIdle segment then stack
  else if segment = ['.', '.'] then
    match stack with
    | top :: below => if top = ['.', '.'] then (if rooted then stack else segment :: stack) else below
    | [] => if rooted then [] else [segment]
  else segment :: stack

/-- The segments of a name without its root, as its normal form keeps them. -/
def resolve (rooted : Bool) (cs : List Char) : List (List Char) :=
  ((cs.splitOn '/').foldl (push rooted) []).reverse

/-- Segments with a slash between each two. -/
def join (segments : List (List Char)) : List Char := ['/'].intercalate segments

def normalForm (cs : List Char) : List Char :=
  let (start, rest) := splitRoot (slashed cs)
  start ++ join (resolve (!start.isEmpty) rest)

/-- The name before its last slash, and nothing when it has none. -/
def beforeLastSlash (cs : List Char) : List Char :=
  (cs.reverse.dropWhile (· != '/')).tail.reverse

/-- The directory of a name, as characters: it keeps the whole root. -/
def directoryPart (cs : List Char) : List Char :=
  let before := beforeLastSlash cs
  if (root cs).length ≤ before.length then before else root cs

/-- The name after its last slash, as characters. -/
def basePart (cs : List Char) : List Char :=
  (cs.reverse.takeWhile (· != '/')).reverse

/-- A name seen from a directory, as characters. -/
def combined (directory relative : List Char) : List Char :=
  if directory.isEmpty || !(root relative).isEmpty then normalForm relative
  else if directory.getLast? == some '/' || root directory == directory then
    normalForm (directory ++ relative)
  else normalForm (directory ++ '/' :: relative)

/-- The number of bytes of the root. -/
def rootLength (name : String) : Nat := Text.byteLength (root name.toList)

def isRooted (name : String) : Bool := !(root name.toList).isEmpty

def normalize (name : String) : String := String.ofList (normalForm name.toList)

/-- The directory of a name; a bare name has the empty one. -/
def directoryOf (name : String) : String := String.ofList (directoryPart name.toList)

/-- The last segment of a name. -/
def base (name : String) : String := String.ofList (basePart name.toList)

/-- The normal form of a name that is relative to a directory, unless it has a root itself. -/
def combine (directory relative : String) : String :=
  String.ofList (combined directory.toList relative.toList)

def withoutEnding? (ending : List Char) (cs : List Char) : Option (List Char) :=
  (ending.reverse.isPrefixOf? cs.reverse).map List.reverse

def isDeclaration (name : String) : Bool :=
  (withoutEnding? ".d.ts".toList name.toList).isSome

/-- The name of the output of a source. -/
def scriptName (source : String) : String :=
  let cs := source.toList
  let stem := ((withoutEnding? ".tsx".toList cs).or (withoutEnding? ".ts".toList cs)).getD cs
  String.ofList (stem ++ ".js".toList)

/-- The last dot of a base name, when something stands before it, starts the extension. -/
def extension? (name : String) : Option String :=
  let reversed := (basePart name.toList).reverse
  match reversed.dropWhile (· != '.') with
  | _ :: _ :: _ => some (String.ofList (reversed.takeWhile (· != '.')).reverse)
  | _ => none

/-- Whether a directory search takes the name for that of a source. -/
def isSource (name : String) : Bool :=
  extension? name == some "ts" || extension? name == some "tsx"

/-- The name of an entry of a directory. -/
def child (directory entry : String) : String :=
  if directory.toList.getLast? == some '/' then directory ++ entry else directory ++ "/" ++ entry

/-- The directories above a name whose reversed segments are given, innermost first. -/
def enclosingOf : List (List Char) → List String
  | [] => []
  | segment :: outer =>
    if isIdle segment then enclosingOf outer
    else
      let above := outer.dropWhile isIdle
      if above.isEmpty then enclosingOf outer
      else String.ofList (join above.reverse) :: enclosingOf outer

/-- The directories that a name lies in, innermost first, without the root. -/
def enclosing (name : String) : List String :=
  enclosingOf (name.toList.splitOn '/').reverse

/-- A path without its idle segments. On a disk it leads where the path leads. -/
def condensed (path : String) : String :=
  let start := path.toList.takeWhile (· == '/') |>.take 1
  String.ofList (start ++ join ((path.toList.splitOn '/').filter (!isIdle ·)))

end ScriptHost.FileName
