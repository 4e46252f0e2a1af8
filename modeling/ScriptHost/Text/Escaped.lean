import ScriptHost.Text.Unprintable

/-! Two quoted forms of text: a literal that shows every character, and a JSON string. -/

namespace ScriptHost.Text

/-- The digits of a number in base sixteen, in lower case. -/
def hexDigits (n : Nat) : String :=
  String.ofList (Nat.toDigits 16 n)

/-- A character inside a literal: a short escape, or its number when it has no picture. -/
def literalChar (c : Char) : String :=
  if c = '"' then "\\\""
  else if c = '\\' then "\\\\"
  else if c = '\n' then "\\n"
  else if c = '\r' then "\\r"
  else if c = '\t' then "\\t"
  else if c = '\x00' then "\\0"
  else if isUnprintable c then "\\u\x7b" ++ hexDigits c.toNat ++ "\x7d"
  else String.singleton c

/-- Text as a literal between double quotes. -/
def literal (text : String) : String :=
  "\"" ++ String.join (text.toList.map literalChar) ++ "\""

/-- A character inside a JSON string: only quotes, backslashes and controls are escaped. -/
def jsonChar (c : Char) : String :=
  if c = '"' then "\\\""
  else if c = '\\' then "\\\\"
  else if c = '\x08' then "\\b"
  else if c = '\x0c' then "\\f"
  else if c = '\n' then "\\n"
  else if c = '\r' then "\\r"
  else if c = '\t' then "\\t"
  else if c.toNat < 0x20 then
    "\\u00" ++ (if c.toNat < 0x10 then "0" else "") ++ hexDigits c.toNat
  else String.singleton c

def jsonString (text : String) : String :=
  "\"" ++ String.join (text.toList.map jsonChar) ++ "\""

def jsonArray (items : List String) : String :=
  "[" ++ ",".intercalate items ++ "]"

end ScriptHost.Text
