import ScriptHost.Proofs.SourceMap.Vlq

/-! Variable-length quantities in words of 64 bits. Both directions are written down once more with
shifts and masks, each step refused where it would lose a bit. Integers that differ from zero by
less than `2 ^ 63` are never refused, and words make no difference for them. -/

namespace ScriptHost.Vlq

/-- A word whose bits are moved up, as long as none of them is lost. -/
def moveUp? (word : UInt64) (count : Nat) : Option UInt64 :=
  if count < 64 ∧ word.toNat <<< count < 2 ^ 64 then some (word <<< .ofNat count) else none

/-- The opposite of an integer, which the least one does not have. -/
def opposite? (value : Int64) : Option Int64 := if value = .minValue then none else some (-value)

/-- An integer with its sign in the lowest bit, for which the others make room. -/
def foldWord? (value : Int64) : Option UInt64 :=
  if value < 0 then
    (opposite? value).bind fun size => (moveUp? size.toUInt64 1).map (· ||| 1)
  else moveUp? value.toUInt64 1

theorem toNat_shiftRight_five (word : UInt64) : (word >>> 5).toNat = word.toNat / 32 := by
  rw [UInt64.toNat_shiftRight]
  exact Nat.shiftRight_eq_div_pow word.toNat 5

/-- The digits of a word. Each takes the lowest five bits that are left, and is marked if more are
left. -/
def wordDigits (word : UInt64) : List Char :=
  if word >>> 5 = 0 then [digit (word &&& 31).toNat]
  else digit (word &&& 31 ||| 32).toNat :: wordDigits (word >>> 5)
termination_by word.toNat
decreasing_by
  rename_i h
  have hn : (word >>> 5).toNat ≠ 0 := fun hz => h (UInt64.toNat_inj.1 hz)
  rw [toNat_shiftRight_five] at hn ⊢
  omega

/-- The digits of integers one after another. -/
def encodeWords? : List Int64 → Option (List Char)
  | [] => some []
  | value :: values =>
    (foldWord? value).bind fun word => (encodeWords? values).map (wordDigits word ++ ·)

/-- The integer whose sign stands in the lowest bit of a word. -/
def unfoldWord (word : UInt64) : Int64 :=
  if word &&& 1 = 1 then -(word >>> 1).toInt64 else (word >>> 1).toInt64

/-- The integers of digits. The quantity that the digits go on with has the word `acc` so far, and
its next digit belongs `shift` bits up. -/
def decodeWordsFrom? (shift : Nat) (acc : UInt64) : List Char → Option (List Int64)
  | [] => if shift = 0 then some [] else none
  | c :: cs =>
    (value? c).bind fun value =>
      (moveUp? (.ofNat (value &&& 31)) shift).bind fun bits =>
        if value &&& 32 = 0 then (decodeWordsFrom? 0 0 cs).map (unfoldWord (acc ||| bits) :: ·)
        else decodeWordsFrom? (shift + 5) (acc ||| bits) cs

/-- The integers of a text. -/
def decodeWords? (cs : List Char) : Option (List Int64) := decodeWordsFrom? 0 0 cs

section Words

variable {n shift count : Nat} {word acc moved : UInt64} {value : Int64} {values : List Int64}

theorem exists_moveUp?_eq (word : UInt64) (hc : count < 64) (hn : 2 ^ count * word.toNat < 2 ^ 64) :
    ∃ moved, moveUp? word count = some moved ∧ moved.toNat = 2 ^ count * word.toNat := by
  have hs : word.toNat <<< count = 2 ^ count * word.toNat := by rw [Nat.shiftLeft_eq, Nat.mul_comm]
  have ht : (UInt64.ofNat count).toNat % 64 = count := by
    rw [UInt64.toNat_ofNat_of_lt' (Nat.lt_trans hc (by decide)), Nat.mod_eq_of_lt hc]
  refine ⟨word <<< .ofNat count, ?_, ?_⟩
  · rw [moveUp?, hs, if_pos ⟨hc, hn⟩]
  · rw [UInt64.toNat_shiftLeft, ht, hs, Nat.mod_eq_of_lt hn]

theorem natAbs_toInt_lt (h : value ≠ .minValue) : value.toInt.natAbs < 2 ^ 63 := by
  have hm : value.toInt ≠ -2 ^ 63 := fun he => h (Int64.toInt_inj.1 he)
  have hl := Int64.le_toInt value
  have hu := Int64.toInt_lt value
  omega

theorem toNat_toUInt64 (h : 0 ≤ value.toInt) : value.toUInt64.toNat = value.toInt.natAbs := by
  have hn : value.toUInt64.toNat = value.toInt.toNat :=
    Int64.toNat_toUInt64_of_le (Int64.le_iff_toInt_le.2 h)
  omega

theorem toInt_neg_of_ne (h : value ≠ .minValue) : (-value).toInt = -value.toInt := by
  have hn := natAbs_toInt_lt h
  rw [Int64.toInt_neg, Int.bmod_eq_of_le] <;> omega

/-- Bits that are set above those of a word count as a number added to it. -/
theorem toNat_or_moved (ha : acc.toNat < 2 ^ shift) (hm : moved.toNat = 2 ^ shift * n) :
    (acc ||| moved).toNat = acc.toNat + 2 ^ shift * n := by
  rw [UInt64.toNat_or, hm, Nat.or_comm, ← Nat.two_pow_add_eq_or_of_lt ha, Nat.add_comm]

/-- The sign of an integer finds room in its word, unless it is the least one. -/
theorem exists_foldWord?_eq (h : value ≠ .minValue) :
    ∃ word, foldWord? value = some word ∧ word.toNat = fold value.toInt := by
  have hn := natAbs_toInt_lt h
  have hz : value < 0 ↔ value.toInt < 0 := Int64.lt_iff_toInt_lt
  have hone : 1 < 64 := by decide
  by_cases hv : value.toInt < 0
  · have ho : (-value).toUInt64.toNat = value.toInt.natAbs := by
      have hi := toInt_neg_of_ne h
      rw [toNat_toUInt64 (by omega), hi, Int.natAbs_neg]
    obtain ⟨moved, hm, ht⟩ := exists_moveUp?_eq (-value).toUInt64 hone (by omega)
    have hs : (1 : UInt64).toNat < 2 ^ 1 := by decide
    refine ⟨moved ||| 1, ?_, ?_⟩
    · rw [foldWord?, if_pos (hz.2 hv), opposite?, if_neg h, Option.bind_some, hm, Option.map_some]
    · rw [fold, if_pos hv, UInt64.or_comm, toNat_or_moved hs ht, ho]
      exact Nat.add_comm 1 _
  · have ho : value.toUInt64.toNat = value.toInt.natAbs := toNat_toUInt64 (by omega)
    obtain ⟨moved, hm, ht⟩ := exists_moveUp?_eq value.toUInt64 hone (by omega)
    refine ⟨moved, ?_, ?_⟩
    · rw [foldWord?, if_neg (fun hn => hv (hz.1 hn)), hm]
    · rw [fold, if_neg hv, ht, ho, Nat.pow_one]

theorem shiftRight_five_eq_zero : word >>> 5 = 0 ↔ word.toNat < 32 := by
  have hs := toNat_shiftRight_five word
  rw [← UInt64.toNat_inj]
  change (word >>> 5).toNat = 0 ↔ word.toNat < 32
  omega

theorem toNat_and_low (word : UInt64) : (word &&& 31).toNat = word.toNat % 32 := by
  rw [UInt64.toNat_and]
  exact Nat.and_two_pow_sub_one_eq_mod word.toNat 5

theorem toNat_marked (word : UInt64) : (word &&& 31 ||| 32).toNat = 32 + word.toNat % 32 := by
  have hlt : (word &&& 31).toNat < 2 ^ 5 := by
    rw [toNat_and_low]
    exact Nat.mod_lt _ (by decide)
  have hm : (32 : UInt64).toNat = 2 ^ 5 * 1 := rfl
  rw [toNat_or_moved hlt hm, toNat_and_low]
  exact Nat.add_comm _ 32

/-- A word has the digits of the number that it holds. -/
theorem wordDigits_eq (word : UInt64) : wordDigits word = digits word.toNat := by
  induction word using wordDigits.induct with
  | case1 word h =>
    have hn := shiftRight_five_eq_zero.1 h
    rw [wordDigits, if_pos h, toNat_and_low, Nat.mod_eq_of_lt hn, digits, dif_pos hn]
  | case2 word h ih =>
    have hn : ¬ word.toNat < 32 := fun hn => h (shiftRight_five_eq_zero.2 hn)
    rw [wordDigits, if_neg h, ih, toNat_marked, toNat_shiftRight_five, digits.eq_1 word.toNat, dif_neg hn]

theorem encodeWords?_eq (h : .minValue ∉ values) :
    encodeWords? values = some (encodeAll (values.map (·.toInt))) := by
  induction values with
  | nil => rfl
  | cons value values ih =>
    rw [List.mem_cons, not_or] at h
    obtain ⟨word, hw, hn⟩ := exists_foldWord?_eq (Ne.symm h.1)
    rw [encodeWords?, hw, Option.bind_some, ih h.2, Option.map_some, wordDigits_eq, hn, List.map_cons,
      encodeAll_cons, encode]

theorem toInt_unfoldWord (word : UInt64) : (unfoldWord word).toInt = unfold word.toNat := by
  have hh : (word >>> 1).toNat = word.toNat / 2 := by
    rw [UInt64.toNat_shiftRight]
    exact Nat.shiftRight_eq_div_pow word.toNat 1
  have hs : (word &&& 1).toNat = word.toNat % 2 := by
    rw [UInt64.toNat_and]
    exact Nat.and_one_is_mod word.toNat
  have hb : word &&& 1 = 1 ↔ word.toNat % 2 = 1 := by
    rw [← UInt64.toNat_inj, hs]
    rfl
  have hlt := word.toNat_lt
  have hi : (word >>> 1).toInt64 = .ofNat (word.toNat / 2) := by
    rw [← hh, ← UInt64.toInt64_ofNat', UInt64.ofNat_toNat]
  rw [unfoldWord, unfold, hi]
  by_cases h : word.toNat % 2 = 1
  · rw [if_pos (hb.2 h), if_pos h, Int64.toInt_neg_ofNat_of_le (by omega)]
  · rw [if_neg (fun he => h (hb.1 he)), if_neg h, Int64.toInt_ofNat_of_lt (by omega)]

theorem unfoldWord_eq (h : word.toNat = fold value.toInt) : unfoldWord word = value := by
  apply Int64.toInt_inj.1
  rw [toInt_unfoldWord, h, unfold_fold]

theorem and_low : ∀ n < 64, n &&& 31 = n % 32 := by decide

theorem and_mark : ∀ n < 64, n &&& 32 = 0 ↔ n < 32 := by decide

/-- A digit adds its bits to the word, and its mark tells whether the word is whole. -/
theorem decodeWordsFrom?_digit (hs : shift < 64) (ha : acc.toNat < 2 ^ shift) (hn : n < 64)
    (hw : word.toNat = acc.toNat + 2 ^ shift * (n % 32)) (cs : List Char) :
    decodeWordsFrom? shift acc (digit n :: cs) =
      if n < 32 then (decodeWords? cs).map (unfoldWord word :: ·)
      else decodeWordsFrom? (shift + 5) word cs := by
  have ht : (UInt64.ofNat (n % 32)).toNat = n % 32 :=
    UInt64.toNat_ofNat_of_lt' (Nat.lt_trans (Nat.mod_lt n (by decide)) (by decide))
  have hlt := word.toNat_lt
  obtain ⟨moved, hm, hv⟩ := exists_moveUp?_eq (.ofNat (n % 32)) hs (by rw [ht]; omega)
  have he : acc ||| moved = word := by
    apply UInt64.toNat_inj.1
    rw [toNat_or_moved ha hv, ht, hw]
  rw [decodeWordsFrom?, value?_digit n hn, Option.bind_some, and_low n hn, hm, Option.bind_some, he,
    decodeWords?]
  simp only [and_mark n hn]

/-- The digits of one quantity are read into the word that holds it, whatever follows them. As long
as digits are left there are bits of the word above those that were read, so no digit is moved up
too far. -/
theorem decodeWordsFrom?_digits (hs : shift < 64) (ha : acc.toNat < 2 ^ shift)
    (hw : word.toNat = acc.toNat + 2 ^ shift * n) (cs : List Char) :
    decodeWordsFrom? shift acc (digits n ++ cs) =
      (decodeWords? cs).map (unfoldWord word :: ·) := by
  have hlt := word.toNat_lt
  induction n using digits.induct generalizing shift acc with
  | case1 n h =>
    have hn : word.toNat = acc.toNat + 2 ^ shift * (n % 32) := by rw [Nat.mod_eq_of_lt h, hw]
    rw [digits, dif_pos h, List.singleton_append, decodeWordsFrom?_digit hs ha (by omega) hn, if_pos h]
  | case2 n h ih =>
    have hsum : 2 ^ shift * n = 2 ^ shift * (n % 32) + 2 ^ (shift + 5) * (n / 32) := by
      conv_lhs => rw [← Nat.mod_add_div n 32]
      ring
    have hmod : (32 + n % 32) % 32 = n % 32 := by omega
    have hnext : (UInt64.ofNat (acc.toNat + 2 ^ shift * (n % 32))).toNat =
        acc.toNat + 2 ^ shift * (n % 32) :=
      UInt64.toNat_ofNat_of_lt' (Nat.lt_of_le_of_lt (by omega) hlt)
    have hup : shift + 5 < 64 := by
      have hle : 2 ^ (shift + 5) ≤ 2 ^ (shift + 5) * (n / 32) := Nat.le_mul_of_pos_right _ (by omega)
      exact (Nat.pow_lt_pow_iff_right (by decide : 1 < 2)).1 (by omega)
    have hacc : acc.toNat + 2 ^ shift * (n % 32) < 2 ^ (shift + 5) := by
      have hle : 2 ^ shift * (n % 32) ≤ 2 ^ shift * 31 := Nat.mul_le_mul_left _ (by omega)
      rw [Nat.pow_add]
      omega
    rw [digits, dif_neg h, List.cons_append,
      decodeWordsFrom?_digit hs ha (by omega) (by rw [hmod]; exact hnext), if_neg (by omega),
      ih hup (by rw [hnext]; exact hacc) (by rw [hnext]; omega)]

theorem decodeWords?_encode_append (h : value ≠ .minValue) (cs : List Char) :
    decodeWords? (encode value.toInt ++ cs) = (decodeWords? cs).map (value :: ·) := by
  obtain ⟨word, -, hw⟩ := exists_foldWord?_eq h
  have hz : word.toNat = (0 : UInt64).toNat + 2 ^ 0 * fold value.toInt := by simpa using hw
  rw [decodeWords?, encode, decodeWordsFrom?_digits (by decide) (by decide) hz, unfoldWord_eq hw]

theorem decodeWords?_encodeAll_append (h : .minValue ∉ values) (cs : List Char) :
    decodeWords? (encodeAll (values.map (·.toInt)) ++ cs) = (decodeWords? cs).map (values ++ ·) := by
  induction values with
  | nil => simp [encodeAll]
  | cons value values ih =>
    rw [List.mem_cons, not_or] at h
    rw [List.map_cons, encodeAll_cons, List.append_assoc, decodeWords?_encode_append (Ne.symm h.1),
      ih h.2, Option.map_map]
    rfl

end Words

/-- Integers that differ from zero by less than `2 ^ 63` are written with words of 64 bits as they
are without a bound, and reading them with such words finds them again and where they end, whatever
follows. Neither loses a bit on the way. Only digits of the alphabet are written, so no mark between
segments is. -/
theorem quantities_read_back_in_words (values : List Int) (h : ∀ value ∈ values, value.natAbs < 2 ^ 63) :
    ∃ words : List Int64, words.map (·.toInt) = values ∧
      encodeWords? words = some (encodeAll values) ∧
      (∀ cs, decodeWords? (encodeAll values ++ cs) = (decodeWords? cs).map (words ++ ·)) ∧
      decodeWords? (encodeAll values) = some words ∧
      decode? (encodeAll values) = some values ∧
      (∀ c ∈ encodeAll values, c ∈ alphabet) ∧ ';' ∉ encodeAll values ∧ ',' ∉ encodeAll values := by
  have hw : (values.map Int64.ofInt).map (·.toInt) = values := by
    rw [List.map_map, List.map_congr_left, List.map_id]
    intro value hv
    have hn := h value hv
    exact Int64.toInt_ofInt_of_le (by omega) (by omega)
  have hm : .minValue ∉ values.map Int64.ofInt := by
    intro hm
    have hv : Int64.minValue.toInt ∈ values := hw ▸ List.mem_map_of_mem hm
    exact absurd (h _ hv) (by decide)
  have he := encodeWords?_eq hm
  have hd := decodeWords?_encodeAll_append hm
  rw [hw] at he hd
  have hall := hd []
  rw [List.append_nil] at hall
  refine ⟨values.map Int64.ofInt, hw, he, hd, ?_, decode?_encodeAll values, fun c hc => ?_, ?_, ?_⟩
  · simpa [decodeWords?, decodeWordsFrom?] using hall
  · exact mem_alphabet_of_mem_encodeAll hc
  · exact not_mem_encodeAll_of_not_mem (by decide)
  · exact not_mem_encodeAll_of_not_mem (by decide)

theorem quantities_read_back_in_words_extreme :
    let values : List Int := [2 ^ 63 - 1, 1 - 2 ^ 63, 0, -16]
    (∀ value ∈ values, value.natAbs < 2 ^ 63) ∧
    encodeAll values = "+///////////P////////////PAhB".toList ∧
    decodeWords? "+///////////P////////////PAhB".toList = some [.maxValue, -.maxValue, 0, -16] := by
  intro values
  have h : ∀ value ∈ values, value.natAbs < 2 ^ 63 := by decide
  have he : encodeAll values = "+///////////P////////////PAhB".toList := by decide +kernel
  obtain ⟨words, hw, -, -, hd, -⟩ := quantities_read_back_in_words values h
  have hv : words = [.maxValue, -.maxValue, 0, -16] :=
    List.map_injective_iff.2 (fun _ _ => Int64.toInt_inj.1) (hw.trans (by decide))
  exact ⟨h, he, by rw [← he, hd, hv]⟩

/-- The least integer of a word has no room for its sign. -/
example : encodeWords? [.minValue] = none := by decide

end ScriptHost.Vlq
