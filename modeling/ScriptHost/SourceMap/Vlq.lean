/-! Variable-length quantities: integers as base64 digits that hold five bits each, the lowest
first. The lowest bit of a quantity is its sign, and every digit but the last is marked. -/

namespace ScriptHost.Vlq

/-- The base64 digits in the order of their values. -/
def alphabet : List Char :=
  "ABCDEFGHIJKLMNOPQRSTUVWXYZabcdefghijklmnopqrstuvwxyz0123456789+/".toList

def digit (value : Nat) : Char := alphabet[value]?.getD 'A'

/-- An integer with its sign folded into the lowest bit. -/
def fold (value : Int) : Nat :=
  if value < 0 then 2 * value.natAbs + 1 else 2 * value.natAbs

def digits (n : Nat) : List Char :=
  if h : n < 32 then [digit n] else digit (32 + n % 32) :: digits (n / 32)
termination_by n
decreasing_by omega

def encode (value : Int) : List Char := digits (fold value)

def encodeAll (values : List Int) : List Char := values.flatMap encode

end ScriptHost.Vlq
