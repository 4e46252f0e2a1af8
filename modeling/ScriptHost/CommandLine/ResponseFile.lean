import ScriptHost.Text.Blank

/-! Response files: their text is a list of tokens, bare or between double quotes. -/

namespace ScriptHost.ResponseFile

/-- Where the reader of tokens stands. -/
inductive Mode where
  | between
  | bare (token : List Char)
  | quoted (token : List Char)

/-- The tokens of a text, read from a mode on. A quote only opens a token at its first character,
and the quote that closes it ends it. -/
def tokensFrom : Mode → List Char → List (List Char)
  | .between, [] => []
  | .bare token, [] => [token]
  | .quoted token, [] => [token]
  | .between, c :: cs =>
    if Text.isBlank c then tokensFrom .between cs
    else if c = '"' then tokensFrom (.quoted []) cs
    else tokensFrom (.bare [c]) cs
  | .bare token, c :: cs =>
    if Text.isBlank c then token :: tokensFrom .between cs
    else tokensFrom (.bare (token ++ [c])) cs
  | .quoted token, c :: cs =>
    if c = '"' then token :: tokensFrom .between cs
    else tokensFrom (.quoted (token ++ [c])) cs

def tokens (text : String) : List String :=
  (tokensFrom .between text.toList).map String.ofList

end ScriptHost.ResponseFile
