/-! Offsets in text count the bytes of its UTF-8 form. -/

namespace ScriptHost.Text

/-- The number of bytes that the characters take in UTF-8. -/
def byteLength : List Char → Nat
  | [] => 0
  | c :: cs => c.utf8Size + byteLength cs

@[simp] theorem byteLength_nil : byteLength [] = 0 := rfl

@[simp] theorem byteLength_cons (c : Char) (cs : List Char) :
    byteLength (c :: cs) = c.utf8Size + byteLength cs := rfl

@[simp] theorem byteLength_append (cs ds : List Char) :
    byteLength (cs ++ ds) = byteLength cs + byteLength ds := by
  induction cs with
  | nil => simp
  | cons c cs ih => simp [ih, Nat.add_assoc]

theorem byteLength_ofList (cs : List Char) : (String.ofList cs).utf8ByteSize = byteLength cs := by
  induction cs with
  | nil => rfl
  | cons c cs ih => simp [String.ofList_cons, ih]

theorem byteLength_toList (text : String) : byteLength text.toList = text.utf8ByteSize := by
  rw [← byteLength_ofList, String.ofList_toList]

/-- The number of UTF-16 code units that a character takes. -/
def unitSize (c : Char) : Nat :=
  if c.toNat < 0x10000 then 1 else 2

/-- The number of UTF-16 code units in the first bytes of a text, where these end on a character
boundary inside it. -/
def unitsBefore? : List Char → (bytes : Nat) → Option Nat
  | _, 0 => some 0
  | [], _ + 1 => none
  | c :: cs, bytes + 1 =>
    if c.utf8Size ≤ bytes + 1 then
      (unitsBefore? cs (bytes + 1 - c.utf8Size)).map (unitSize c + ·)
    else none

/-- The characters from a byte offset on, where it is a character boundary. -/
def charsFrom? : List Char → (offset : Nat) → Option (List Char)
  | cs, 0 => some cs
  | [], _ + 1 => none
  | c :: cs, offset + 1 =>
    if c.utf8Size ≤ offset + 1 then charsFrom? cs (offset + 1 - c.utf8Size) else none

/-- The character that marks the byte order at the start of a file. -/
def byteOrderMark : Char := '\uFEFF'

/-- Text without one leading byte order mark. -/
def dropByteOrderMark (text : String) : String :=
  match text.toList with
  | c :: cs => if c = byteOrderMark then String.ofList cs else text
  | [] => text

theorem dropByteOrderMark_of_marked {text rest : String}
    (h : text.toList = byteOrderMark :: rest.toList) : dropByteOrderMark text = rest := by
  unfold dropByteOrderMark
  rw [h]
  exact (if_pos rfl).trans String.ofList_toList

theorem dropByteOrderMark_of_unmarked {text : String}
    (h : text.toList.head? ≠ some byteOrderMark) : dropByteOrderMark text = text := by
  unfold dropByteOrderMark
  split
  · rename_i c cs hc
    rw [hc] at h
    exact if_neg fun he => h (congrArg some he)
  · rfl

/-- Text with a byte order mark in front when `mark` asks for one. -/
def withByteOrderMark (mark : Bool) (text : String) : String :=
  if mark then String.singleton byteOrderMark ++ text else text

end ScriptHost.Text
