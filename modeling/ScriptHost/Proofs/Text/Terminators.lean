import Mathlib.Data.List.Basic
import ScriptHost.Proofs.Text.Order
import ScriptHost.Text.Lines

/-! Where the line terminators of a text end, told by the characters around each of them and found
in its bytes, and offsets between characters. -/

namespace ScriptHost.Text

/-- A line terminator between two texts: a carriage return with a line feed, or either of them
alone. -/
inductive Terminator : (before terminator after : List Char) → Prop
  | pair {before after} : Terminator before ['\r', '\n'] after
  | carriageReturn {before after} (h : after.head? ≠ some '\n') : Terminator before ['\r'] after
  | lineFeed {before after} (h : before.getLast? ≠ some '\r') : Terminator before ['\n'] after

/-- Whether a line terminator of a text ends at a byte offset. -/
def EndsLine (cs : List Char) (offset : Nat) : Prop :=
  ∃ before terminator after, cs = before ++ (terminator ++ after) ∧
    Terminator before terminator after ∧ offset = byteLength (before ++ terminator)

/-- The offsets behind the line terminators among bytes that begin at an offset. -/
def terminatorEndsInBytes (offset : Nat) : List UInt8 → List Nat
  | [] => []
  | 0x0D :: 0x0A :: bs => (offset + 2) :: terminatorEndsInBytes (offset + 2) bs
  | b :: bs =>
    if b = 0x0D ∨ b = 0x0A then (offset + 1) :: terminatorEndsInBytes (offset + 1) bs
    else terminatorEndsInBytes (offset + 1) bs

/-- The offsets at which the lines of a text begin, found in its bytes. -/
def lineStartsInBytes (text : String) : List Nat := 0 :: terminatorEndsInBytes 0 (bytes text)

/-- The UTF-16 code units of a character. -/
def utf16 (c : Char) : List Nat :=
  if c.toNat < 0x10000 then [c.toNat]
  else [0xD800 + (c.toNat - 0x10000) / 0x400, 0xDC00 + (c.toNat - 0x10000) % 0x400]

variable {cs front back before terminator after rest : List Char} {c : Char} {offset stop : Nat}

theorem Terminator.of_cons (h : Terminator (c :: before) terminator after) :
    Terminator before terminator after := by
  cases h with
  | pair => exact .pair
  | carriageReturn h => exact .carriageReturn h
  | lineFeed h =>
    refine .lineFeed fun hl => h ?_
    simp [List.getLast?_cons, hl]

theorem Terminator.cons (h : Terminator before terminator after)
    (hc : c = '\r' → before = [] → terminator ≠ ['\n']) :
    Terminator (c :: before) terminator after := by
  cases h with
  | pair => exact .pair
  | carriageReturn h => exact .carriageReturn h
  | lineFeed h =>
    refine .lineFeed fun hl => ?_
    cases before with
    | nil => exact hc (by simpa using hl) rfl rfl
    | cons d before => exact h (by simpa using hl)

theorem not_endsLine_nil : ¬ EndsLine [] offset := by
  rintro ⟨before, terminator, after, he, ht, -⟩
  obtain ⟨rfl, he⟩ := List.append_eq_nil_iff.1 he.symm
  cases ht <;> simp at he

theorem endsLine_pair_iff : EndsLine ('\r' :: '\n' :: cs) stop ↔
    stop = 2 ∨ ∃ later, EndsLine cs later ∧ stop = 2 + later := by
  constructor
  · rintro ⟨before, terminator, after, he, ht, rfl⟩
    match before with
    | [] =>
      cases ht with
      | pair => exact .inl rfl
      | carriageReturn h =>
        obtain ⟨-, rfl⟩ := List.cons.inj he
        exact absurd rfl h
      | lineFeed => simp at he
    | [first] =>
      obtain ⟨rfl, he⟩ := List.cons.inj he
      cases ht with
      | pair => simp at he
      | carriageReturn => simp at he
      | lineFeed h => exact absurd rfl h
    | first :: second :: before =>
      simp only [List.cons_append, List.cons.injEq] at he
      obtain ⟨rfl, rfl, rfl⟩ := he
      refine .inr ⟨_, ⟨before, terminator, after, rfl, ht.of_cons.of_cons, rfl⟩, ?_⟩
      simp [Char.utf8Size]
      omega
  · rintro (rfl | ⟨later, ⟨before, terminator, after, rfl, ht, rfl⟩, rfl⟩)
    · exact ⟨[], ['\r', '\n'], cs, rfl, .pair, rfl⟩
    · refine ⟨'\r' :: '\n' :: before, terminator, after, rfl, ?_, ?_⟩
      · exact (ht.cons (by simp)).cons (by simp)
      · simp [Char.utf8Size]
        omega

theorem endsLine_cons_iff (hp : c = '\r' → cs.head? ≠ some '\n') : EndsLine (c :: cs) stop ↔
    (c = '\r' ∨ c = '\n') ∧ stop = c.utf8Size ∨
      ∃ later, EndsLine cs later ∧ stop = c.utf8Size + later := by
  constructor
  · rintro ⟨before, terminator, after, he, ht, rfl⟩
    cases before with
    | nil =>
      left
      cases ht with
      | pair =>
        obtain ⟨rfl, rfl⟩ := List.cons.inj he
        exact absurd rfl (hp rfl)
      | carriageReturn =>
        obtain ⟨rfl, -⟩ := List.cons.inj he
        exact ⟨.inl rfl, by simp⟩
      | lineFeed =>
        obtain ⟨rfl, -⟩ := List.cons.inj he
        exact ⟨.inr rfl, by simp⟩
    | cons first before =>
      obtain ⟨rfl, rfl⟩ := List.cons.inj he
      refine .inr ⟨_, ⟨before, terminator, after, rfl, ht.of_cons, rfl⟩, ?_⟩
      rw [List.cons_append, byteLength_cons]
  · rintro (⟨hc, rfl⟩ | ⟨later, ⟨before, terminator, after, rfl, ht, rfl⟩, rfl⟩)
    · refine ⟨[], [c], cs, rfl, ?_, by simp⟩
      rcases hc with rfl | rfl
      · exact .carriageReturn (hp rfl)
      · exact .lineFeed (by simp)
    · refine ⟨c :: before, terminator, after, rfl, ht.cons ?_, ?_⟩
      · rintro rfl rfl rfl
        exact hp rfl rfl
      · rw [List.cons_append, byteLength_cons]

/-- What lies at an offset behind a part of a text lies farther behind what is before that part. -/
theorem exists_behind_iff {lies : Nat → Prop} (size : Nat) :
    (∃ later, (∃ last, lies last ∧ later = size + last) ∧ stop = offset + later) ↔
      ∃ last, lies last ∧ stop = offset + size + last := by
  constructor
  · rintro ⟨later, ⟨last, hl, rfl⟩, rfl⟩
    exact ⟨last, hl, (Nat.add_assoc _ _ _).symm⟩
  · rintro ⟨last, hl, rfl⟩
    exact ⟨size + last, ⟨last, hl, rfl⟩, Nat.add_assoc _ _ _⟩

/-- The ends that are counted are those of the line terminators. -/
theorem mem_terminatorEnds_iff (offset : Nat) (cs : List Char) :
    stop ∈ terminatorEnds offset cs ↔ ∃ later, EndsLine cs later ∧ stop = offset + later := by
  fun_induction terminatorEnds offset cs with
  | case1 => simp [not_endsLine_nil]
  | case2 offset cs ih =>
    simp only [List.mem_cons, ih, endsLine_pair_iff, or_and_right, exists_or, exists_eq_left,
      exists_behind_iff]
  | case3 offset c cs hn next hc ih =>
    have hp : c = '\r' → cs.head? ≠ some '\n' := by
      intro hr hh
      obtain ⟨tail, rfl⟩ := List.head?_eq_some_iff.1 hh
      exact hn tail hr rfl
    simp only [List.mem_cons, ih, endsLine_cons_iff hp, hc, true_and, or_and_right, exists_or,
      exists_eq_left, exists_behind_iff, next]
  | case4 offset c cs hn next hc ih =>
    have hp : c = '\r' → cs.head? ≠ some '\n' := fun hr => absurd (.inl hr) hc
    simp only [ih, endsLine_cons_iff hp, hc, false_and, false_or, exists_behind_iff, next]

theorem utf8EncodeChar_of_low (h : c.toNat < 128) :
    String.utf8EncodeChar c = [UInt8.ofNat c.toNat] := by
  unfold String.utf8EncodeChar
  exact if_pos (Nat.lt_succ_iff.1 h)

theorem high_of_mem_utf8EncodeChar (h : 128 ≤ c.toNat) :
    ∀ b ∈ String.utf8EncodeChar c, 128 ≤ b.toNat := by
  have hbound := toNat_val_lt c
  unfold String.utf8EncodeChar
  unfold Char.toNat at h
  generalize c.val.toNat = n at h hbound
  dsimp only
  rw [if_neg (by omega)]
  split_ifs <;>
    simp only [List.forall_mem_cons, List.not_mem_nil, false_implies, implies_true, and_true,
      UInt8.toNat_ofNat'] <;>
    omega

/-- A byte of the lower half stands for a character of its own. -/
theorem toNat_eq_of_mem_utf8EncodeChar {b : UInt8} (h : b ∈ String.utf8EncodeChar c)
    (hb : b.toNat < 128) : c.toNat = b.toNat := by
  have hc : c.toNat < 128 := by
    by_contra hc
    have hhigh := high_of_mem_utf8EncodeChar (Nat.le_of_not_lt hc) b h
    omega
  rw [utf8EncodeChar_of_low hc, List.mem_singleton] at h
  rw [h, UInt8.toNat_ofNat']
  omega

theorem exists_lineFeed_of_flatMap {bs : List UInt8}
    (h : cs.flatMap String.utf8EncodeChar = 0x0A :: bs) : ∃ ds, cs = '\n' :: ds := by
  cases cs with
  | nil => simp at h
  | cons d ds =>
    have hn : String.utf8EncodeChar d ≠ [] := by
      apply List.ne_nil_of_length_pos
      rw [String.length_utf8EncodeChar]
      exact d.utf8Size_pos
    obtain ⟨b, more, hd⟩ := List.exists_cons_of_ne_nil hn
    rw [List.flatMap_cons, hd] at h
    obtain ⟨rfl, -⟩ := List.cons.inj h
    have hd' : d = '\n' :=
      Char.toNat_inj.1 (toNat_eq_of_mem_utf8EncodeChar (b := 0x0A) (by simp [hd]) (by decide))
    exact ⟨ds, by rw [hd']⟩

theorem terminatorEndsInBytes_append {bs : List UInt8} (h : ∀ b ∈ bs, ¬ (b = 0x0D ∨ b = 0x0A))
    (rest : List UInt8) : terminatorEndsInBytes offset (bs ++ rest) =
      terminatorEndsInBytes (offset + bs.length) rest := by
  induction bs generalizing offset with
  | nil => rfl
  | cons b bs ih =>
    obtain ⟨hb, hbs⟩ := List.forall_mem_cons.1 h
    rw [List.cons_append, terminatorEndsInBytes, if_neg hb, ih hbs, List.length_cons]
    · congr 1
      omega
    · exact fun _ hr _ => hb (.inl hr)

theorem terminatorEndsInBytes_flatMap (offset : Nat) (cs : List Char) :
    terminatorEndsInBytes offset (cs.flatMap String.utf8EncodeChar) = terminatorEnds offset cs := by
  fun_induction terminatorEnds offset cs with
  | case1 => rfl
  | case2 offset cs ih =>
    rw [← ih]
    rfl
  | case3 offset c cs hn next hc ih =>
    obtain ⟨b, hb, hbreak⟩ : ∃ b, String.utf8EncodeChar c = [b] ∧ (b = 0x0D ∨ b = 0x0A) := by
      rcases hc with rfl | rfl
      · exact ⟨0x0D, rfl, .inl rfl⟩
      · exact ⟨0x0A, rfl, .inr rfl⟩
    have hs : c.utf8Size = 1 := by rw [← String.length_utf8EncodeChar, hb, List.length_singleton]
    rw [List.flatMap_cons, hb, List.singleton_append, terminatorEndsInBytes, if_pos hbreak, ← ih]
    · simp only [next, hs]
    · rintro bs rfl hbs
      have hr : c = '\r' :=
        Char.toNat_inj.1 (toNat_eq_of_mem_utf8EncodeChar (b := 0x0D) (by simp [hb]) (by decide))
      obtain ⟨ds, rfl⟩ := exists_lineFeed_of_flatMap hbs
      exact hn ds hr rfl
  | case4 offset c cs hn next hc ih =>
    have hquiet : ∀ b ∈ String.utf8EncodeChar c, ¬ (b = 0x0D ∨ b = 0x0A) := by
      intro b hm hb
      have hlow : b.toNat < 128 := by rcases hb with rfl | rfl <;> decide
      have hn := toNat_eq_of_mem_utf8EncodeChar hm hlow
      refine hc (hb.imp ?_ ?_)
      · rintro rfl
        exact Char.toNat_inj.1 hn
      · rintro rfl
        exact Char.toNat_inj.1 hn
    rw [List.flatMap_cons, terminatorEndsInBytes_append hquiet, String.length_utf8EncodeChar, ← ih]

/-- In the bytes of a text its lines begin where they begin in its characters. -/
theorem lineStartsInBytes_eq (text : String) : lineStartsInBytes text = lineStarts text.toList := by
  rw [lineStartsInBytes, bytes_eq_flatMap, terminatorEndsInBytes_flatMap, lineStarts]

theorem lt_of_mem_terminatorEnds (offset : Nat) (cs : List Char) :
    ∀ stop ∈ terminatorEnds offset cs, offset < stop := by
  fun_induction terminatorEnds offset cs with
  | case1 => simp
  | case2 offset cs ih =>
    refine List.forall_mem_cons.2 ⟨by omega, fun stop hs => ?_⟩
    have hi := ih stop hs
    omega
  | case3 offset c cs hn next hc ih =>
    have hpos := c.utf8Size_pos
    refine List.forall_mem_cons.2 ⟨by omega, fun stop hs => ?_⟩
    have hi := ih stop hs
    omega
  | case4 offset c cs hn next hc ih =>
    intro stop hs
    have hi := ih stop hs
    omega

/-- The starts of lines grow. -/
theorem pairwise_lineStarts (cs : List Char) : (lineStarts cs).Pairwise (· < ·) := by
  have h : ∀ offset, (terminatorEnds offset cs).Pairwise (· < ·) := by
    intro offset
    fun_induction terminatorEnds offset cs with
    | case1 => exact .nil
    | case2 offset cs ih => exact List.pairwise_cons.2 ⟨lt_of_mem_terminatorEnds _ _, ih⟩
    | case3 offset c cs hn next hc ih => exact List.pairwise_cons.2 ⟨lt_of_mem_terminatorEnds _ _, ih⟩
    | case4 offset c cs hn next hc ih => exact ih
  exact List.pairwise_cons.2 ⟨lt_of_mem_terminatorEnds 0 cs, h 0⟩

theorem nodup_lineStarts (cs : List Char) : (lineStarts cs).Nodup :=
  (pairwise_lineStarts cs).imp fun h => Nat.ne_of_lt h

theorem mem_terminatorEnds_zero_iff : stop ∈ terminatorEnds 0 cs ↔ EndsLine cs stop := by
  rw [mem_terminatorEnds_iff]
  simp

theorem mem_lineStarts_iff : stop ∈ lineStarts cs ↔ stop = 0 ∨ EndsLine cs stop := by
  rw [lineStarts, List.mem_cons, mem_terminatorEnds_zero_iff]

/-- A line starts between two characters. -/
theorem exists_append_of_mem_lineStarts (h : stop ∈ lineStarts cs) :
    ∃ before rest, cs = before ++ rest ∧ byteLength before = stop := by
  rcases mem_lineStarts_iff.1 h with rfl | ⟨before, terminator, after, rfl, -, rfl⟩
  · exact ⟨[], cs, rfl, rfl⟩
  · exact ⟨before ++ terminator, after, (List.append_assoc _ _ _).symm, rfl⟩

theorem byteLength_eq_zero : byteLength cs = 0 ↔ cs = [] := by
  cases cs with
  | nil => simp
  | cons c cs =>
    have hpos := c.utf8Size_pos
    simp only [byteLength_cons, reduceCtorEq, iff_false]
    omega

/-- Of two beginnings of a text, the longer one goes on from the shorter one. -/
theorem exists_append_of_le {other : List Char} (h : before ++ rest = front ++ other)
    (hl : byteLength before ≤ byteLength front) : ∃ since, front = before ++ since := by
  rcases List.append_eq_append_iff.1 h with ⟨since, hf, -⟩ | ⟨more, hb, -⟩
  · exact ⟨since, hf⟩
  · have hz : byteLength more = 0 := by
      have hb' := congrArg byteLength hb
      rw [byteLength_append] at hb'
      omega
    rw [byteLength_eq_zero.1 hz, List.append_nil] at hb
    exact ⟨[], by rw [hb, List.append_nil]⟩

theorem eq_of_byteLength_eq {other : List Char} (h : before ++ rest = front ++ other)
    (hl : byteLength before = byteLength front) : before = front := by
  obtain ⟨since, rfl⟩ := exists_append_of_le h (Nat.le_of_eq hl)
  rw [byteLength_append] at hl
  rw [byteLength_eq_zero.1 (show byteLength since = 0 by omega), List.append_nil]

theorem charsFrom?_append (before rest : List Char) :
    charsFrom? (before ++ rest) (byteLength before) = some rest := by
  induction before with
  | nil => cases rest <;> rfl
  | cons c before ih =>
    obtain ⟨size, hs⟩ := Nat.exists_eq_add_one.2 c.utf8Size_pos
    have hl : byteLength (c :: before) = size + byteLength before + 1 := by
      rw [byteLength_cons]
      omega
    have hr : size + byteLength before + 1 - c.utf8Size = byteLength before := by omega
    rw [hl, List.cons_append, charsFrom?, if_pos (by omega), hr, ih]

theorem length_utf16 (c : Char) : (utf16 c).length = unitSize c := by
  unfold utf16 unitSize
  split <;> rfl

theorem length_flatMap_utf16_pos (h : cs ≠ []) : 0 < (cs.flatMap utf16).length := by
  obtain ⟨c, cs, rfl⟩ := List.exists_cons_of_ne_nil h
  have hc : 0 < (utf16 c).length := by
    unfold utf16
    split <;> simp
  rw [List.flatMap_cons, List.length_append]
  omega

/-- The units in front of an offset between characters are those of the characters in front of it.
-/
theorem unitsBefore?_append (since rest : List Char) :
    unitsBefore? (since ++ rest) (byteLength since) = some (since.flatMap utf16).length := by
  induction since with
  | nil => cases rest <;> rfl
  | cons c since ih =>
    obtain ⟨size, hs⟩ := Nat.exists_eq_add_one.2 c.utf8Size_pos
    have hl : byteLength (c :: since) = size + byteLength since + 1 := by
      rw [byteLength_cons]
      omega
    have hr : size + byteLength since + 1 - c.utf8Size = byteLength since := by omega
    rw [hl, List.cons_append, unitsBefore?, if_pos (by omega), hr, ih, Option.map_some,
      List.flatMap_cons, List.length_append, length_utf16]

theorem unitSize_le (c : Char) : unitSize c ≤ c.utf8Size := by
  unfold unitSize
  split
  · exact c.utf8Size_pos
  · by_contra hs
    have hone : c.utf8Size = 1 := by
      have hpos := c.utf8Size_pos
      omega
    have hv : c.toNat ≤ 127 := UInt32.le_iff_toNat_le.1 (Char.utf8Size_eq_one_iff.1 hone)
    omega

theorem unitsBefore?_le (cs : List Char) (bytes : Nat) :
    ∀ units ∈ unitsBefore? cs bytes, units ≤ bytes := by
  fun_induction unitsBefore? cs bytes with
  | case1 => simp
  | case2 => simp
  | case3 c cs bytes hc ih =>
    intro units hu
    obtain ⟨more, hm, rfl⟩ := Option.map_eq_some_iff.1 hu
    have hsize := unitSize_le c
    have hi := ih more hm
    omega
  | case4 => simp

end ScriptHost.Text
