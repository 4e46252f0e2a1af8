import ScriptHost.Text.Utf8

/-! Two ways to cut text into lines: at every line feed, and at every line terminator. -/

namespace ScriptHost.Text

/-- The lines of a text, each with the line feed that ends it. -/
def lines : List Char → List (List Char)
  | [] => []
  | c :: cs =>
    if c = '\n' then [c] :: lines cs
    else
      match lines cs with
      | [] => [[c]]
      | line :: rest => (c :: line) :: rest

theorem flatten_lines (cs : List Char) : (lines cs).flatten = cs := by
  induction cs with
  | nil => rfl
  | cons c cs ih =>
    rw [lines]
    split
    · simp [ih]
    · split <;> simp_all

/-- The offsets after every line terminator of text that begins at `offset`. A carriage return
and a line feed after it are one terminator. -/
def terminatorEnds (offset : Nat) : List Char → List Nat
  | [] => []
  | '\r' :: '\n' :: cs => (offset + 2) :: terminatorEnds (offset + 2) cs
  | c :: cs =>
    let next := offset + c.utf8Size
    if c = '\r' ∨ c = '\n' then next :: terminatorEnds next cs else terminatorEnds next cs

/-- The offset at which each line of a text begins. -/
def lineStarts (cs : List Char) : List Nat := 0 :: terminatorEnds 0 cs

end ScriptHost.Text
