import Mathlib.Data.List.Basic
import Mathlib.Tactic.Ring
import ScriptHost.SourceMap.Vlq

/-! Decoding of variable-length quantities, which undoes their encoding. -/

namespace ScriptHost.Vlq

variable {weight acc n : Nat} {value : Int} {values : List Int} {c : Char} {cs : List Char}

/-- The value of a base64 digit. -/
def value? (c : Char) : Option Nat := alphabet.idxOf? c

/-- The integer whose sign stands in the lowest bit. -/
def unfold (n : Nat) : Int := if n % 2 = 1 then -(n / 2 : Nat) else (n / 2 : Nat)

/-- The integers of digits. The quantity that the digits go on with has `acc` so far, and its next
digit counts `weight` times. A text must not end inside a quantity. -/
def decodeFrom? (weight acc : Nat) : List Char → Option (List Int)
  | [] => if weight = 1 then some [] else none
  | c :: cs =>
    (value? c).bind fun value =>
      if value < 32 then (decodeFrom? 1 0 cs).map (unfold (acc + weight * value) :: ·)
      else decodeFrom? (32 * weight) (acc + weight * (value - 32)) cs

/-- The integers of a text. -/
def decode? (cs : List Char) : Option (List Int) := decodeFrom? 1 0 cs

theorem value?_digit : ∀ n < 64, value? (digit n) = some n := by decide

theorem digit_mem_alphabet : ∀ n < 64, digit n ∈ alphabet := by decide

theorem unfold_fold (value : Int) : unfold (fold value) = value := by
  unfold unfold fold
  by_cases h : value < 0
  · rw [if_pos h, if_pos (by omega)]
    omega
  · rw [if_neg h, if_neg (by omega)]
    omega

/-- The digits of one quantity stand for it, whatever follows them. -/
theorem decodeFrom?_digits (weight acc n : Nat) (cs : List Char) :
    decodeFrom? weight acc (digits n ++ cs) =
      (decodeFrom? 1 0 cs).map (unfold (acc + weight * n) :: ·) := by
  induction n using digits.induct generalizing weight acc with
  | case1 n h =>
    rw [digits, dif_pos h]
    simp [decodeFrom?, value?_digit n (by omega), h]
  | case2 n h ih =>
    have hv := value?_digit (32 + n % 32) (by omega)
    have hn : acc + weight * (n % 32) + 32 * weight * (n / 32) = acc + weight * n := by
      conv_rhs => rw [← Nat.mod_add_div n 32]
      ring
    rw [digits, dif_neg h, List.cons_append, decodeFrom?, hv, Option.bind_some,
      if_neg (by omega), Nat.add_sub_cancel_left, ih, hn]

theorem decode?_encode_append (value : Int) (cs : List Char) :
    decode? (encode value ++ cs) = (decode? cs).map (value :: ·) := by
  unfold decode? encode
  rw [decodeFrom?_digits, Nat.zero_add, Nat.one_mul, unfold_fold]

theorem encodeAll_cons (value : Int) (values : List Int) :
    encodeAll (value :: values) = encode value ++ encodeAll values := List.flatMap_cons

theorem decode?_encodeAll (values : List Int) : decode? (encodeAll values) = some values := by
  induction values with
  | nil => rfl
  | cons value values ih =>
    rw [encodeAll_cons, decode?_encode_append, ih, Option.map_some]

example : decode? "ADhBgB".toList = some [0, -1, -16, 16] := by decide

theorem mem_alphabet_of_mem_digits (h : c ∈ digits n) : c ∈ alphabet := by
  induction n using digits.induct with
  | case1 n hn =>
    rw [digits, dif_pos hn, List.mem_singleton] at h
    subst c
    exact digit_mem_alphabet n (by omega)
  | case2 n hn ih =>
    rw [digits, dif_neg hn] at h
    rcases List.mem_cons.1 h with rfl | h
    · exact digit_mem_alphabet _ (by omega)
    · exact ih h

theorem mem_alphabet_of_mem_encodeAll (h : c ∈ encodeAll values) : c ∈ alphabet := by
  obtain ⟨value, -, hc⟩ := List.mem_flatMap.1 h
  exact mem_alphabet_of_mem_digits hc

theorem digits_ne_nil (n : Nat) : digits n ≠ [] := by
  rw [digits]
  split <;> simp

theorem encodeAll_ne_nil (value : Int) (values : List Int) :
    encodeAll (value :: values) ≠ [] := by
  simp [encodeAll_cons, encode, digits_ne_nil]

theorem not_mem_encodeAll_of_not_mem (h : c ∉ alphabet) : c ∉ encodeAll values := by
  intro hc
  exact h (mem_alphabet_of_mem_encodeAll hc)

end ScriptHost.Vlq
