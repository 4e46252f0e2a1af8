import Mathlib.Data.List.TakeWhile
import Mathlib.Data.Prod.Lex
import Mathlib.Data.Set.Card
import Mathlib.Order.Monotone.Defs
import ScriptHost.Proofs.Text.Terminators
import ScriptHost.SourceText

/-! Lines and columns of offsets. A line is found by a search among the starts of all lines, and the
column by a count of UTF-16 units from there; neither can fail, and offsets between characters keep
their order. -/

namespace ScriptHost

open Text

/-- What a search for a number among growing ones may answer: an index where it stands, or the index
where it belongs. -/
inductive Finds (numbers : List Nat) (wanted : Nat) : Except Nat Nat → Prop
  | found {index : Nat} (h : numbers[index]? = some wanted) : Finds numbers wanted (.ok index)
  | missing {front back : List Nat} (hs : numbers = front ++ back) (hf : ∀ n ∈ front, n < wanted)
      (hb : ∀ n ∈ back, wanted < n) : Finds numbers wanted (.error front.length)

/-- The index that a search leads to: where the number was found, or one before the place where it
belongs. There is none before the first place. -/
def indexOf? : Except Nat Nat → Option Nat
  | .ok index => some index
  | .error 0 => none
  | .error (index + 1) => some index

section Search

variable {wanted : Nat} {numbers front back : List Nat} {outcome : Except Nat Nat}

theorem filter_le_append (hf : ∀ n ∈ front, n ≤ wanted) (hb : ∀ n ∈ back, wanted < n) :
    (front ++ back).filter (· ≤ wanted) = front := by
  have hfront : front.filter (· ≤ wanted) = front :=
    List.filter_eq_self.2 fun n hn => decide_eq_true (hf n hn)
  have hback : back.filter (· ≤ wanted) = [] :=
    List.filter_eq_nil_iff.2 fun n hn => by simpa using hb n hn
  rw [List.filter_append, hfront, hback, List.append_nil]

/-- There is always an answer to a search. -/
theorem exists_finds (hp : numbers.Pairwise (· < ·)) (wanted : Nat) :
    ∃ outcome, Finds numbers wanted outcome := by
  have hs : numbers.takeWhile (· < wanted) ++ numbers.dropWhile (· < wanted) = numbers :=
    List.takeWhile_append_dropWhile
  have hf : ∀ n ∈ numbers.takeWhile (· < wanted), n < wanted := fun n hn => by
    simpa using List.mem_takeWhile_imp hn
  have hd := List.head?_dropWhile_not (· < wanted) numbers
  generalize numbers.takeWhile (· < wanted) = front at hs hf
  generalize numbers.dropWhile (· < wanted) = back at hs hd
  subst numbers
  cases back with
  | nil => exact ⟨_, .missing rfl hf (by simp)⟩
  | cons first back =>
    have hle : wanted ≤ first := by simpa using hd
    have hrest := (List.pairwise_cons.1 (List.pairwise_append.1 hp).2.1).1
    rcases Nat.eq_or_lt_of_le hle with rfl | hlt
    · exact ⟨.ok front.length, .found (by simp)⟩
    · refine ⟨_, .missing rfl hf (List.forall_mem_cons.2 ⟨hlt, fun n hn => ?_⟩)⟩
      exact Nat.lt_trans hlt (hrest n hn)

/-- A search leads to the last of the numbers up to the one that is wanted. -/
theorem Finds.exists_filter_eq (h : Finds numbers wanted outcome) (hp : numbers.Pairwise (· < ·))
    (hz : 0 ∈ numbers) :
    ∃ front last, numbers.filter (· ≤ wanted) = front ++ [last] ∧
      numbers[front.length]? = some last ∧ indexOf? outcome = some front.length := by
  cases h with
  | @found index h =>
    obtain ⟨front, back, rfl, rfl⟩ :
        ∃ front back, numbers = front ++ wanted :: back ∧ front.length = index := by
      obtain ⟨hi, he⟩ := List.getElem?_eq_some_iff.1 h
      refine ⟨numbers.take index, numbers.drop (index + 1), ?_, List.length_take_of_le hi.le⟩
      rw [← he, List.getElem_cons_drop, List.take_append_drop]
    obtain ⟨-, hback, hfront⟩ := List.pairwise_append.1 hp
    refine ⟨front, wanted, ?_, h, rfl⟩
    rw [List.append_cons]
    refine filter_le_append (fun n hn => ?_) (List.pairwise_cons.1 hback).1
    rcases List.mem_append.1 hn with hn | hn
    · exact (hfront n hn wanted List.mem_cons_self).le
    · exact (List.mem_singleton.1 hn).le
  | @missing front back hs hf hb =>
    have hn : front ≠ [] := by
      rintro rfl
      rw [hs] at hz
      exact absurd (hb 0 hz) (Nat.not_lt_zero _)
    obtain ⟨first, last, rfl⟩ : ∃ first last, front = first ++ [last] :=
      ⟨front.dropLast, front.getLast hn, (List.dropLast_append_getLast hn).symm⟩
    refine ⟨first, last, ?_, ?_, ?_⟩
    · rw [hs]
      exact filter_le_append (fun n hm => (hf n hm).le) hb
    · simp [hs]
    · rw [List.length_append]
      rfl

end Search

namespace SourceText

/-- The line and the column of an offset from the outcome of a search for it among the line starts.
None where an index is out of range or a difference would be below zero. -/
def lineAndColumn? (source : SourceText) (offset : Nat) (outcome : Except Nat Nat) :
    Option (Nat × Nat) := do
  let offset := min offset source.size
  let line ← indexOf? outcome
  let start ← (lineStartsInBytes source.text)[line]?
  if start ≤ offset then
    let units := (charsFrom? source.text.toList start).bind (unitsBefore? · (offset - start))
    return (line + 1, units.getD (offset - start) + 1)
  else none

/-- The starts of the lines that have begun at an offset. -/
def begun (source : SourceText) (offset : Nat) : List Nat :=
  (lineStarts source.text.toList).filter (· ≤ min offset source.size)

/-- The start of the line that an offset is in. -/
def start (source : SourceText) (offset : Nat) : Nat := (source.begun offset).getLast?.getD 0

/-- The offsets between characters, with both ends of the text. -/
def boundaries (source : SourceText) : Set Nat :=
  {offset | ∃ front back, source.text.toList = front ++ back ∧ offset = byteLength front}

variable {source : SourceText} {offset : Nat} {outcome : Except Nat Nat} {front back : List Char}

theorem lineAndColumn_eq (source : SourceText) (offset : Nat) :
    let within := min offset source.size - source.start offset
    source.lineAndColumn offset = ((source.begun offset).length,
      ((charsFrom? source.text.toList (source.start offset)).bind (unitsBefore? · within)).getD
        within + 1) :=
  rfl

theorem zero_mem_lineStarts (cs : List Char) : 0 ∈ lineStarts cs := List.mem_cons_self

/-- The outcome of a search gives line and column, whatever the search is. -/
theorem lineAndColumn?_eq
    (h : Finds (lineStartsInBytes source.text) (min offset source.size) outcome) :
    source.lineAndColumn? offset outcome = some (source.lineAndColumn offset) := by
  rw [lineStartsInBytes_eq] at h
  obtain ⟨front, last, hfilter, hget, hindex⟩ :=
    h.exists_filter_eq (pairwise_lineStarts _) (zero_mem_lineStarts _)
  have hbegun : source.begun offset = front ++ [last] := hfilter
  have hstart : source.start offset = last := by simp [start, hbegun]
  have hle : last ≤ min offset source.size := by
    have hm : last ∈ source.begun offset := by simp [hbegun]
    simpa [begun] using (List.mem_filter.1 hm).2
  rw [lineAndColumn_eq, hstart, hbegun, lineAndColumn?, hindex, lineStartsInBytes_eq]
  simp only [Option.bind_eq_bind, Option.bind_some, hget]
  rw [if_pos hle]
  simp

theorem exists_begun_eq (source : SourceText) (offset : Nat) :
    ∃ earlier, source.begun offset = earlier ++ [source.start offset] := by
  have hn : source.begun offset ≠ [] := by
    apply List.ne_nil_of_mem (a := 0)
    exact List.mem_filter.2 ⟨zero_mem_lineStarts _, by simp⟩
  refine ⟨(source.begun offset).dropLast, ?_⟩
  rw [start, List.getLast?_eq_some_getLast hn, Option.getD_some, List.dropLast_append_getLast hn]

theorem start_mem_begun (source : SourceText) (offset : Nat) :
    source.start offset ∈ source.begun offset := by
  obtain ⟨earlier, he⟩ := source.exists_begun_eq offset
  simp [he]

theorem le_start : ∀ stop ∈ source.begun offset, stop ≤ source.start offset := by
  obtain ⟨earlier, he⟩ := source.exists_begun_eq offset
  have hp : (source.begun offset).Pairwise (· < ·) := (pairwise_lineStarts _).filter _
  rw [he] at hp ⊢
  intro stop hs
  rcases List.mem_append.1 hs with hs | hs
  · exact ((List.pairwise_append.1 hp).2.2 stop hs _ List.mem_cons_self).le
  · exact (List.mem_singleton.1 hs).le

theorem mem_begun_iff {stop : Nat} : stop ∈ source.begun offset ↔
    (stop = 0 ∨ EndsLine source.text.toList stop) ∧ stop ≤ min offset source.size := by
  rw [begun, List.mem_filter, mem_lineStarts_iff, decide_eq_true_iff]

theorem start_le (source : SourceText) (offset : Nat) :
    source.start offset ≤ min offset source.size :=
  (mem_begun_iff.1 (source.start_mem_begun offset)).2

/-- The line of an offset is one more than the line terminators that have ended. -/
theorem line_eq (source : SourceText) (offset : Nat) : (source.lineAndColumn offset).1 =
    {stop | EndsLine source.text.toList stop ∧ stop ≤ min offset source.size}.ncard + 1 := by
  have hset : {stop | EndsLine source.text.toList stop ∧ stop ≤ min offset source.size} =
      (((terminatorEnds 0 source.text.toList).filter (· ≤ min offset source.size)).toFinset :
        Set Nat) := by
    ext stop
    simp [mem_terminatorEnds_zero_iff]
  have hnodup : ((terminatorEnds 0 source.text.toList).filter (· ≤ min offset source.size)).Nodup :=
    (nodup_lineStarts _).of_cons.filter _
  rw [lineAndColumn_eq, begun, lineStarts, List.filter_cons_of_pos (by simp), List.length_cons, hset,
    Set.ncard_coe_finset, List.toFinset_card_of_nodup hnodup]

theorem min_byteLength (h : source.text.toList = front ++ back) :
    min (byteLength front) source.size = byteLength front := by
  rw [size, h, byteLength_append]
  omega

/-- Between characters, the column is one more than the UTF-16 units from the start of the line. -/
theorem exists_column_eq (h : source.text.toList = front ++ back) :
    ∃ before since, front = before ++ since ∧ byteLength before = source.start (byteLength front) ∧
      (source.lineAndColumn (byteLength front)).2 = (since.flatMap utf16).length + 1 := by
  have hm := (List.mem_filter.1 (source.start_mem_begun (byteLength front))).1
  obtain ⟨before, rest, hs, hb⟩ := exists_append_of_mem_lineStarts hm
  have hle : byteLength before ≤ byteLength front := by
    have hstart := source.start_le (byteLength front)
    omega
  obtain ⟨since, rfl⟩ := exists_append_of_le (hs.symm.trans h) hle
  have hwithin : byteLength (before ++ since) - byteLength before = byteLength since := by
    rw [byteLength_append, Nat.add_sub_cancel_left]
  refine ⟨before, since, rfl, hb, ?_⟩
  rw [lineAndColumn_eq, min_byteLength h, ← hb, hwithin, h, List.append_assoc,
    charsFrom?_append, Option.bind_some, unitsBefore?_append, Option.getD_some]

theorem lineAndColumn_of_size_le (h : source.size ≤ offset) :
    source.lineAndColumn offset = source.lineAndColumn source.size := by
  have hm : min offset source.size = min source.size source.size := by
    rw [Nat.min_eq_right h, Nat.min_self]
  have hs : source.start offset = source.start source.size := by
    rw [start, start, begun, begun, hm]
  rw [lineAndColumn_eq, lineAndColumn_eq, begun, begun, hs, hm]

/-- Neither a line nor a column is greater than one more than the size of the text. -/
theorem lineAndColumn_le (source : SourceText) (offset : Nat) :
    (source.lineAndColumn offset).1 ≤ source.size + 1 ∧
      (source.lineAndColumn offset).2 ≤ source.size + 1 := by
  have hsize : min offset source.size ≤ source.size := Nat.min_le_right _ _
  constructor
  · have hnodup : (source.begun offset).Nodup := (nodup_lineStarts _).filter _
    have hsub : (source.begun offset).toFinset ⊆ Finset.range (source.size + 1) := by
      intro stop hs
      have hle := (mem_begun_iff.1 (List.mem_toFinset.1 hs)).2
      exact Finset.mem_range.2 (by omega)
    have hcard := Finset.card_le_card hsub
    rwa [List.toFinset_card_of_nodup hnodup, Finset.card_range] at hcard
  · rw [lineAndColumn_eq]
    generalize hw : min offset source.size - source.start offset = within
    have hle : within ≤ source.size := by omega
    dsimp only
    cases hu : (charsFrom? source.text.toList (source.start offset)).bind (unitsBefore? · within) with
    | none => exact Nat.succ_le_succ hle
    | some units =>
      obtain ⟨cs, -, hcs⟩ := Option.bind_eq_some_iff.1 hu
      exact Nat.succ_le_succ ((unitsBefore?_le cs within units hcs).trans hle)

/-- Of two offsets between characters in one line, the later one has the greater column. -/
theorem column_lt (h : source.text.toList = front ++ back) {more later : List Char}
    (h' : source.text.toList = front ++ more ++ later) (hn : more ≠ [])
    (hs : source.start (byteLength front) = source.start (byteLength (front ++ more))) :
    (source.lineAndColumn (byteLength front)).2 <
      (source.lineAndColumn (byteLength (front ++ more))).2 := by
  obtain ⟨before, since, rfl, hb, hc⟩ := exists_column_eq h
  obtain ⟨before', since', hf, hb', hc'⟩ := exists_column_eq h'
  have hbefore : before = before' := by
    rw [List.append_assoc] at hf
    exact eq_of_byteLength_eq hf (by rw [hb, hb', hs])
  subst before'
  rw [List.append_assoc] at hf
  have hpos := length_flatMap_utf16_pos hn
  rw [hc, hc', ← List.append_cancel_left hf, List.flatMap_append, List.length_append]
  omega

theorem strictMonoOn_lineAndColumn (source : SourceText) :
    StrictMonoOn (fun offset => toLex (source.lineAndColumn offset)) source.boundaries := by
  rintro _ ⟨front, back, h, rfl⟩ _ ⟨front', back', h', rfl⟩ hlt
  obtain ⟨more, rfl⟩ := exists_append_of_le (h.symm.trans h') hlt.le
  have hn : more ≠ [] := by
    rintro rfl
    simp at hlt
  have hsub : (source.begun (byteLength front)).Sublist
      (source.begun (byteLength (front ++ more))) := by
    refine List.monotone_filter_right _ fun stop hs => ?_
    simp only [decide_eq_true_eq] at hs ⊢
    omega
  apply Prod.Lex.toLex_lt_toLex.2
  rcases Nat.lt_or_eq_of_le hsub.length_le with hl | hl
  · exact .inl hl
  · have hs : source.start (byteLength front) = source.start (byteLength (front ++ more)) := by
      rw [start, start, hsub.eq_of_length hl]
    exact .inr ⟨hl, column_lt h h' hn hs⟩

/-- Line and column of every offset in every text. The line starts that are found in its bytes grow,
so that a search for the offset has an answer, and each answer leads to line and column without an
index out of range or a difference below zero; offsets beyond the end stand for the end. The line is
one more than the terminators that have ended, and between characters the column is one more than
the UTF-16 units since the last of them. There the order of places is that of offsets. -/
theorem line_and_column_exact (source : SourceText) :
    (lineStartsInBytes source.text).Pairwise (· < ·) ∧
    (∀ offset, (∃ outcome, Finds (lineStartsInBytes source.text) (min offset source.size) outcome) ∧
      ∀ outcome, Finds (lineStartsInBytes source.text) (min offset source.size) outcome →
        source.lineAndColumn? offset outcome = some (source.lineAndColumn offset)) ∧
    (∀ offset, (source.lineAndColumn offset).1 ≤ source.size + 1 ∧
      (source.lineAndColumn offset).2 ≤ source.size + 1) ∧
    (∀ offset, source.size ≤ offset →
      source.lineAndColumn offset = source.lineAndColumn source.size) ∧
    (∀ offset, (source.lineAndColumn offset).1 =
      {stop | EndsLine source.text.toList stop ∧ stop ≤ min offset source.size}.ncard + 1) ∧
    (∀ front back, source.text.toList = front ++ back → ∃ before since, front = before ++ since ∧
      (before = [] ∨ EndsLine source.text.toList (byteLength before)) ∧
      (∀ stop, EndsLine source.text.toList stop → stop ≤ byteLength front →
        stop ≤ byteLength before) ∧
      (source.lineAndColumn (byteLength front)).2 = (since.flatMap utf16).length + 1) ∧
    StrictMonoOn (fun offset => toLex (source.lineAndColumn offset)) source.boundaries ∧
    Set.InjOn source.lineAndColumn source.boundaries := by
  have hp : (lineStartsInBytes source.text).Pairwise (· < ·) := by
    rw [lineStartsInBytes_eq]
    exact pairwise_lineStarts _
  refine ⟨hp, fun offset => ⟨exists_finds hp _, fun _ => lineAndColumn?_eq⟩,
    source.lineAndColumn_le, fun _ => lineAndColumn_of_size_le, source.line_eq, ?_,
    source.strictMonoOn_lineAndColumn, ?_⟩
  · intro front back h
    obtain ⟨before, since, rfl, hb, hc⟩ := exists_column_eq h
    refine ⟨before, since, rfl, ?_, fun stop hs hle => ?_, hc⟩
    · rcases (mem_begun_iff.1 (source.start_mem_begun _)).1 with hz | hs
      · exact .inl (byteLength_eq_zero.1 (hb.trans hz))
      · exact .inr (hb ▸ hs)
    · rw [hb]
      exact le_start stop (mem_begun_iff.2 ⟨.inr hs, by rwa [min_byteLength h]⟩)
  · intro offset ho other hother he
    exact source.strictMonoOn_lineAndColumn.injOn ho hother (congrArg toLex he)

theorem line_and_column_exact_mixed :
    let source : SourceText := ⟨"m.ts", "é\r\n😀b\rc"⟩
    source.lineAndColumn? 8 (.error 2) = some (2, 3) ∧
    toLex (source.lineAndColumn 9) < toLex (source.lineAndColumn 10) := by
  intro source
  obtain ⟨-, hsearch, -, -, -, -, hmono, -⟩ := line_and_column_exact source
  have hstarts : lineStartsInBytes source.text = [0, 4] ++ [10] := by decide +kernel
  have hsize : min 8 source.size = 8 := by decide +kernel
  have hfinds : Finds (lineStartsInBytes source.text) (min 8 source.size) (.error 2) := by
    rw [hsize]
    exact .missing hstarts (by decide) (by decide)
  refine ⟨((hsearch 8).2 _ hfinds).trans (by decide +kernel), hmono ?_ ?_ (by decide)⟩
  · exact ⟨"é\r\n😀b".toList, "\rc".toList, by decide +kernel, by decide +kernel⟩
  · exact ⟨"é\r\n😀b\r".toList, "c".toList, by decide +kernel, by decide +kernel⟩

end SourceText

end ScriptHost
