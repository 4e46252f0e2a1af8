import Mathlib.Data.List.Forall2
import Mathlib.Tactic.SplitIfs
import ScriptHost.Text.Escaped

/-! Tokens of JSON texts without blanks, and the values that they stand for. -/

namespace ScriptHost.Json

open Text

/-- A token: a text between quotes, or one character outside of them. -/
inductive Token where
  | mark (c : Char)
  | text (value : String)
  deriving DecidableEq, Repr

/-- Where a reader of JSON stands. What stood between the quotes so far is kept backwards. Of a
numbered character it knows how many digits follow the next one, and the value of those before. -/
inductive Mode where
  | outside
  | inside (before : List Char)
  | escaped (before : List Char)
  | numbered (before : List Char) (left value : Nat)
  deriving DecidableEq, Repr

variable {before cs : List Char} {c : Char} {d : Nat}

/-- The character that another one stands for after a backslash. -/
def short? (c : Char) : Option Char :=
  [('"', '"'), ('\\', '\\'), ('/', '/'), ('b', '\x08'), ('f', '\x0c'), ('n', '\n'), ('r', '\r'),
    ('t', '\t')].lookup c

/-- The value of a digit in base sixteen. -/
def hexValue? (c : Char) : Option Nat := "0123456789abcdef".toList.idxOf? c.toLower

/-- The character with a number. A surrogate has none. -/
def char? (n : Nat) : Option Char := if n.isValidChar then some (.ofNat n) else none

/-- The mode after a character, and the token that ends with it. Controls must be escaped between
quotes. -/
def Mode.step? : Mode → Char → Option (Mode × Option Token)
  | outside, c =>
    if c = '"' then some (inside [], none)
    else some (outside, some (.mark c))
  | inside before, c =>
    if c = '"' then some (outside, some (.text (.ofList before.reverse)))
    else if c = '\\' then some (escaped before, none)
    else if c.toNat < 0x20 then none
    else some (inside (c :: before), none)
  | escaped before, c =>
    if c = 'u' then some (numbered before 3 0, none)
    else (short? c).map fun c => (inside (c :: before), none)
  | numbered before left value, c =>
    (hexValue? c).bind fun digit =>
      if left = 0 then (char? (16 * value + digit)).map fun c => (inside (c :: before), none)
      else some (numbered before (left - 1) (16 * value + digit), none)

/-- The tokens of a text that begins in a mode. It must end outside of quotes. -/
def scan? (mode : Mode) : List Char → Option (List Token)
  | [] => if mode = .outside then some [] else none
  | c :: cs =>
    (mode.step? c).bind fun next => (scan? next.1 cs).map (next.2.toList ++ ·)

theorem hexValue?_digitChar : ∀ d < 16, hexValue? d.digitChar = some d := by decide

theorem scan?_cons_of_quiet {mode next : Mode} (h : mode.step? c = some (next, none)) :
    scan? mode (c :: cs) = scan? next cs := by
  simp [scan?, h]

theorem scan?_digit {left value : Nat} (h : d < 16) :
    scan? (.numbered before (left + 1) value) (d.digitChar :: cs) =
      scan? (.numbered before left (16 * value + d)) cs :=
  scan?_cons_of_quiet (by simp [Mode.step?, hexValue?_digitChar d h])

theorem scan?_last_digit {value : Nat} (h : d < 16) (hc : 16 * value + d = c.toNat) :
    scan? (.numbered before 0 value) (d.digitChar :: cs) = scan? (.inside (c :: before)) cs := by
  have hv : c.toNat.isValidChar := c.valid
  exact scan?_cons_of_quiet (by simp [Mode.step?, hexValue?_digitChar d h, hc, char?, hv])

theorem scan?_short {escape : String} {e : Char} (h : escape.toList = ['\\', e])
    (he : short? e = some c)
    (cs : List Char) :
    scan? (.inside before) (escape.toList ++ cs) = scan? (.inside (c :: before)) cs := by
  have hu : e ≠ 'u' := by
    rintro rfl
    have hn : short? 'u' = none := by decide
    simp [hn] at he
  rw [h, List.cons_append, List.singleton_append, scan?_cons_of_quiet (by rfl)]
  exact scan?_cons_of_quiet (by simp [Mode.step?, hu, he])

theorem scan?_numbered {escape : String} {d e : Nat} (h : escape.toList = "\\u00".toList ++
    [d.digitChar, e.digitChar]) (hd : d < 16) (he : e < 16) (hc : 16 * d + e = c.toNat)
    (cs : List Char) :
    scan? (.inside before) (escape.toList ++ cs) = scan? (.inside (c :: before)) cs := by
  have hu : "\\u00".toList = ['\\', 'u', Nat.digitChar 0, Nat.digitChar 0] := by decide
  rw [h, hu]
  simp only [List.cons_append, List.nil_append]
  rw [scan?_cons_of_quiet (by rfl), scan?_cons_of_quiet (by rfl), scan?_digit (by omega),
    scan?_digit (by omega), scan?_digit hd]
  exact scan?_last_digit he (by omega)

/-- A character of a JSON text between quotes is read as what it was written for. -/
theorem scan?_jsonChar (before : List Char) (c : Char) (cs : List Char) :
    scan? (.inside before) ((jsonChar c).toList ++ cs) = scan? (.inside (c :: before)) cs := by
  unfold jsonChar
  split_ifs with hq hb h8 hf hn hr ht hc hd
  · exact hq ▸ scan?_short (e := '"') (by decide) (by decide) cs
  · exact hb ▸ scan?_short (e := '\\') (by decide) (by decide) cs
  · exact h8 ▸ scan?_short (e := 'b') (by decide) (by decide) cs
  · exact hf ▸ scan?_short (e := 'f') (by decide) (by decide) cs
  · exact hn ▸ scan?_short (e := 'n') (by decide) (by decide) cs
  · exact hr ▸ scan?_short (e := 'r') (by decide) (by decide) cs
  · exact ht ▸ scan?_short (e := 't') (by decide) (by decide) cs
  · refine scan?_numbered (d := 0) (e := c.toNat) ?_ (by omega) hd (by omega) cs
    simp [hexDigits, Nat.toDigits_of_lt_base hd]
  · have hn : c.toNat / 16 = 1 := by omega
    refine scan?_numbered (d := 1) (e := c.toNat % 16) ?_ (by omega) (by omega) (by omega) cs
    have hx := Nat.toDigits_of_base_le (show 1 < 16 by omega) (show 16 ≤ c.toNat by omega)
    simp [hexDigits, hx, hn, Nat.toDigits_of_lt_base (show 1 < 16 by omega)]
  · have hs : (Mode.inside before).step? c = some (.inside (c :: before), none) := by
      simp [Mode.step?, hq, hb, hc]
    simpa using scan?_cons_of_quiet hs

theorem scan?_escaped (before text cs : List Char) :
    scan? (.inside before) (text.flatMap (jsonChar · |>.toList) ++ cs) =
      scan? (.inside (text.reverse ++ before)) cs := by
  induction text generalizing before with
  | nil => rfl
  | cons c text ih =>
    rw [List.flatMap_cons, List.append_assoc, scan?_jsonChar, ih, List.reverse_cons,
      List.append_assoc, List.singleton_append]

/-- The tokens of a JSON text. -/
def tokens? (json : String) : Option (List Token) := scan? .outside json.toList

theorem scan?_append {mode : Mode} {tokens : List Token} (h : scan? mode cs = some tokens)
    (ds : List Char) : scan? mode (cs ++ ds) = (scan? .outside ds).map (tokens ++ ·) := by
  induction cs generalizing mode tokens with
  | nil =>
    obtain ⟨rfl, rfl⟩ : mode = .outside ∧ [] = tokens := by simpa [scan?] using h
    simp
  | cons c cs ih =>
    obtain ⟨next, hn, rest, hr, rfl⟩ : ∃ next, mode.step? c = some next ∧
        ∃ rest, scan? next.1 cs = some rest ∧ next.2.toList ++ rest = tokens := by
      simpa [scan?, Option.bind_eq_some_iff] using h
    simp [scan?, hn, ih hr, Function.comp_def]

theorem tokens?_append {first second : String} {ts us : List Token} (hf : tokens? first = some ts)
    (hs : tokens? second = some us) : tokens? (first ++ second) = some (ts ++ us) := by
  rw [tokens?, String.toList_append, scan?_append hf]
  exact congrArg (Option.map (ts ++ ·)) hs

/-- A JSON string is read as the text that it was written for. -/
theorem tokens?_jsonString (text : String) : tokens? (jsonString text) = some [.text text] := by
  have ht : (jsonString text).toList =
      '"' :: (text.toList.flatMap (jsonChar · |>.toList) ++ ['"']) := by
    simp [jsonString, List.flatMap_map]
  rw [tokens?, ht, scan?_cons_of_quiet (by rfl), scan?_escaped, List.append_nil]
  simp [scan?, Mode.step?]

/-- A value of JSON whose numbers are natural. -/
inductive Value where
  | number (n : Nat)
  | text (value : String)
  | list (items : List Value)
  | record (fields : List (String × Value))

/-- The tokens of a value. -/
def Value.tokens : Value → List Token
  | number n => (Nat.toDigits 10 n).map .mark
  | text value => [.text value]
  | list items => .mark '[' :: [.mark ','].intercalate (items.map tokens) ++ [.mark ']']
  | record fields =>
    .mark '\x7b' :: [.mark ','].intercalate (fields.map fun field =>
      .text field.1 :: .mark ':' :: tokens field.2) ++ [.mark '\x7d']
decreasing_by
  · have hi := List.sizeOf_lt_of_mem ‹_ ∈ items›
    simp only [list.sizeOf_spec]
    omega
  · have hf := List.sizeOf_lt_of_mem ‹_ ∈ fields›
    have hv : sizeOf field = 1 + sizeOf field.1 + sizeOf field.2 := rfl
    simp only [record.sizeOf_spec]
    omega

/-- What a JSON text stands for: the value that has its tokens. -/
def Denotes (json : String) (value : Value) : Prop := tokens? json = some value.tokens

theorem denotes_jsonString (text : String) : Denotes (jsonString text) (.text text) := by
  rw [Denotes, Value.tokens, tokens?_jsonString]

theorem tokens?_intercalate {items : List String} {values : List Value}
    (h : List.Forall₂ Denotes items values) :
    tokens? (",".intercalate items) = some ([.mark ','].intercalate (values.map Value.tokens)) := by
  induction h with
  | nil => decide
  | @cons item value items values hi h ih =>
    cases h with
    | nil => simpa [Denotes] using hi
    | cons hn h =>
      have hc : tokens? "," = some [.mark ','] := by decide
      have ht := tokens?_append (tokens?_append hi hc) ih
      simpa [List.intercalate_cons_cons] using ht

theorem denotes_jsonArray {items : List String} {values : List Value}
    (h : List.Forall₂ Denotes items values) : Denotes (jsonArray items) (.list values) := by
  have ho : tokens? "[" = some [.mark '['] := by decide
  have hc : tokens? "]" = some [.mark ']'] := by decide
  rw [Denotes, Value.tokens, jsonArray]
  exact tokens?_append (tokens?_append ho (tokens?_intercalate h)) hc

end ScriptHost.Json
