import Mathlib.Data.List.TakeWhile
import ScriptHost.Proofs.Text.Terminators

/-! The longest runs of letters in a text, where letters are the characters of some kind. -/

namespace ScriptHost.Text

/-- A run of letters and the offset at which it begins. -/
structure Run where
  start : Nat
  letters : List Char
  deriving DecidableEq, Repr

/-- The longest runs of letters of a text that begins at an offset, from left to right. -/
def runsFrom (isLetter : Char → Bool) (offset : Nat) : List Char → List Run
  | [] => []
  | c :: cs =>
    if isLetter c then
      let letters := c :: cs.takeWhile isLetter
      ⟨offset, letters⟩ :: runsFrom isLetter (offset + byteLength letters) (cs.dropWhile isLetter)
    else runsFrom isLetter (offset + c.utf8Size) cs
  termination_by cs => cs.length
  decreasing_by
    · exact Nat.lt_succ_of_le (List.dropWhile_sublist _).length_le
    · exact Nat.lt_succ_self _

/-- Whether letters between two parts of a text are a longest run: they go on on neither side. -/
structure StandsBetween (isLetter : Char → Bool) (front letters back : List Char) : Prop where
  ne_nil : letters ≠ []
  all : ∀ c ∈ letters, isLetter c = true
  before : front.getLast?.any isLetter = false
  behind : back.head?.any isLetter = false

/-- Whether a text has a longest run at its place. -/
def HasRun (isLetter : Char → Bool) (cs : List Char) (found : Run) : Prop :=
  ∃ front back, cs = front ++ found.letters ++ back ∧ found.start = byteLength front ∧
    StandsBetween isLetter front found.letters back

variable {isLetter : Char → Bool} {c : Char} {cs run rest letters : List Char} {offset : Nat}
  {found : Run}

/-- The longest run at the beginning of a text is told by what it is made of and what follows it. -/
theorem eq_of_append_eq {back : List Char} (h : letters ++ back = run ++ rest)
    (hl : ∀ c ∈ letters, isLetter c = true) (hb : back.head?.any isLetter = false)
    (hr : ∀ c ∈ run, isLetter c = true) (hrest : rest.head?.any isLetter = false) :
    letters = run ∧ back = rest := by
  have htake {front behind : List Char} (hf : ∀ c ∈ front, isLetter c = true)
      (hn : behind.head?.any isLetter = false) :
      (front ++ behind).takeWhile isLetter = front := by
    rw [List.takeWhile_append_of_pos hf]
    cases behind with
    | nil => exact List.append_nil _
    | cons d behind => rw [List.takeWhile_cons_of_neg (by simpa using hn), List.append_nil]
  have he : letters = run := by rw [← htake hl hb, h, htake hr hrest]
  exact ⟨he, List.append_cancel_left (he ▸ h)⟩

theorem eq_nil_of_getLast? (h : run.getLast?.any isLetter = false)
    (hr : ∀ c ∈ run, isLetter c = true) : run = [] := by
  rcases List.eq_nil_or_concat run with rfl | ⟨front, d, rfl⟩
  · rfl
  · have hd := hr d (by simp)
    simp [hd] at h

theorem getLast?_append_any (front : List Char) {since : List Char} (hn : since ≠ []) :
    (front ++ since).getLast?.any isLetter = since.getLast?.any isLetter := by
  rw [List.getLast?_append, List.getLast?_eq_some_getLast hn, Option.some_or]

theorem getLast?_cons_any (hc : isLetter c = false) (front : List Char) :
    (c :: front).getLast?.any isLetter = front.getLast?.any isLetter := by
  by_cases hn : front = []
  · rw [hn]
    exact hc
  · exact getLast?_append_any [c] hn

theorem not_hasRun_nil : ¬ HasRun isLetter [] found := by
  rintro ⟨front, back, he, -, h⟩
  simp [h.ne_nil] at he

theorem StandsBetween.head?_append {front back : List Char}
    (h : StandsBetween isLetter front letters back) : (letters ++ back).head?.any isLetter = true := by
  obtain ⟨d, more, rfl⟩ := List.exists_cons_of_ne_nil h.ne_nil
  exact h.all d List.mem_cons_self

/-- Behind a character that is no letter, a text has the runs of the rest. -/
theorem hasRun_cons_iff (hc : isLetter c = false) : HasRun isLetter (c :: cs) found ↔
    ∃ later, HasRun isLetter cs ⟨later, found.letters⟩ ∧ found.start = c.utf8Size + later := by
  constructor
  · rintro ⟨front, back, he, hs, h⟩
    cases front with
    | nil =>
      have hh := h.head?_append
      rw [← List.nil_append found.letters, ← he] at hh
      simp [hc] at hh
    | cons d front =>
      obtain ⟨rfl, rfl⟩ := List.cons.inj he
      refine ⟨byteLength front, ⟨front, back, rfl, rfl, h.ne_nil, h.all, ?_, h.behind⟩, hs⟩
      rw [← h.before, getLast?_cons_any hc]
  · rintro ⟨later, ⟨front, back, rfl, hs, h⟩, hw⟩
    refine ⟨c :: front, back, rfl, by rw [hw, byteLength_cons, ← hs], h.ne_nil, h.all, ?_, h.behind⟩
    rw [getLast?_cons_any hc, h.before]

/-- Behind a run of letters that does not go on, a text has the runs of the rest. -/
theorem hasRun_append_iff (hn : run ≠ []) (hr : ∀ c ∈ run, isLetter c = true)
    (hrest : rest.head?.any isLetter = false) : HasRun isLetter (run ++ rest) found ↔
      found = ⟨0, run⟩ ∨ ∃ later, HasRun isLetter rest ⟨later, found.letters⟩ ∧
        found.start = byteLength run + later := by
  constructor
  · rintro ⟨front, back, he, hs, h⟩
    rw [List.append_assoc] at he
    rcases List.append_eq_append_iff.1 he.symm with ⟨since, hrun, ho⟩ | ⟨since, hfront, ho⟩
    · left
      have hfront : front = [] :=
        eq_nil_of_getLast? h.before fun c hc => hr c (hrun ▸ List.mem_append_left _ hc)
      rw [hfront, List.nil_append] at he
      rw [hfront] at hs
      obtain ⟨hl, -⟩ := eq_of_append_eq he.symm h.all h.behind hr hrest
      rw [← hl, ← show found.start = 0 from hs]
    · right
      have hsince : since ≠ [] := by
        rintro rfl
        rw [List.append_nil] at hfront
        exact hn (eq_nil_of_getLast? (hfront ▸ h.before) hr)
      refine ⟨byteLength since, ⟨since, back, ?_, rfl, h.ne_nil, h.all, ?_, h.behind⟩, ?_⟩
      · rw [ho, List.append_assoc]
      · rw [← h.before, hfront, getLast?_append_any run hsince]
      · rw [hs, hfront, byteLength_append]
  · rintro (rfl | ⟨later, ⟨front, back, rfl, hs, h⟩, hw⟩)
    · exact ⟨[], rest, rfl, rfl, hn, hr, rfl, hrest⟩
    · have hfront : front ≠ [] := by
        rintro rfl
        rw [List.nil_append, h.head?_append] at hrest
        exact Bool.noConfusion hrest
      refine ⟨run ++ front, back, by simp, ?_, h.ne_nil, h.all, ?_, h.behind⟩
      · rw [hw, byteLength_append, ← hs]
      · rw [getLast?_append_any run hfront, h.before]

theorem head?_dropWhile_any (cs : List Char) :
    (cs.dropWhile isLetter).head?.any isLetter = false := by
  have h := List.head?_dropWhile_not isLetter cs
  cases hd : cs.dropWhile isLetter with
  | nil => rfl
  | cons d ds => simpa [hd] using h

theorem isLetter_of_mem_cons_takeWhile (hc : isLetter c = true) :
    ∀ d ∈ c :: cs.takeWhile isLetter, isLetter d = true :=
  List.forall_mem_cons.2 ⟨hc, fun _ => List.mem_takeWhile_imp⟩

/-- The runs that are found are those that the text has. -/
theorem mem_runsFrom_iff (offset : Nat) (cs : List Char) : found ∈ runsFrom isLetter offset cs ↔
    ∃ later, HasRun isLetter cs ⟨later, found.letters⟩ ∧ found.start = offset + later := by
  fun_induction runsFrom isLetter offset cs with
  | case1 => simp [not_hasRun_nil]
  | case2 offset c cs hc run ih =>
    have hsplit : c :: cs = run ++ cs.dropWhile isLetter := by simp [run]
    have hall : ∀ d ∈ run, isLetter d = true := isLetter_of_mem_cons_takeWhile hc
    have hhere : found = ⟨offset, run⟩ ↔
        ∃ later, (⟨later, found.letters⟩ : Run) = ⟨0, run⟩ ∧ found.start = offset + later := by
      obtain ⟨start, letters⟩ := found
      simp [and_comm]
    have hrun (later : Nat) :
        HasRun isLetter (run ++ cs.dropWhile isLetter) ⟨later, found.letters⟩ ↔ _ :=
      hasRun_append_iff (List.cons_ne_nil _ _) hall (head?_dropWhile_any cs)
    simp only [hsplit, hrun, List.mem_cons, ih, or_and_right, exists_or, hhere, exists_behind_iff]
  | case3 offset c cs hc ih =>
    simp only [hasRun_cons_iff (Bool.eq_false_iff.2 hc), ih, exists_behind_iff]

theorem le_of_mem_runsFrom (h : found ∈ runsFrom isLetter offset cs) : offset ≤ found.start := by
  obtain ⟨later, -, hs⟩ := (mem_runsFrom_iff offset cs).1 h
  omega

/-- Runs are found from left to right. -/
theorem pairwise_runsFrom (isLetter : Char → Bool) (offset : Nat) (cs : List Char) :
    (runsFrom isLetter offset cs).Pairwise (·.start < ·.start) := by
  fun_induction runsFrom isLetter offset cs with
  | case1 => exact .nil
  | case2 offset c cs hc run ih =>
    refine List.pairwise_cons.2 ⟨fun found hw => ?_, ih⟩
    have hle := le_of_mem_runsFrom hw
    have hpos := c.utf8Size_pos
    simp only [run, byteLength_cons] at hle
    change offset < found.start
    omega
  | case3 offset c cs hc ih => exact ih

end ScriptHost.Text
