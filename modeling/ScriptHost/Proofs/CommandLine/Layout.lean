import ScriptHost.Proofs.Reference
import ScriptHost.CommandLine.ResponseFile

/-! Tokens are found again in every text that lays them out, bare or between double quotes, with
white space between them. -/

namespace ScriptHost.ResponseFile

open Text

/-- White space, or nothing. -/
def Gap (blanks : List Char) : Prop := ∀ c ∈ blanks, isBlank c = true

instance : DecidablePred Gap := fun blanks =>
  decidable_of_iff (blanks.all isBlank = true) (by simp [Gap])

/-- Whether characters write a token. It is written bare if it has characters, none of them blank
and the first one no quote; it is written between quotes if there is none in it. -/
inductive Writes : List Char → List Char → Prop
  | bare {token : List Char} (hn : token ≠ []) (hs : Solid token) (hq : token.head? ≠ some '"') :
      Writes token token
  | quoted {token : List Char} (hq : '"' ∉ token) : Writes token ('"' :: token ++ ['"'])

/-- Whether a text holds tokens behind an earlier one: white space is between them all, and may
stand at the end. -/
inductive Behind : List (List Char) → List Char → Prop
  | done {blanks : List Char} (hb : Gap blanks) : Behind [] blanks
  | next {blanks token written rest : List Char} {tokens : List (List Char)} (hn : blanks ≠ [])
      (hb : Gap blanks) (hw : Writes token written) (hr : Behind tokens rest) :
      Behind (token :: tokens) (blanks ++ (written ++ rest))

/-- Whether a text lays out tokens. White space may stand in front of them, too. -/
inductive LaysOut : List (List Char) → List Char → Prop
  | blank {blanks : List Char} (hb : Gap blanks) : LaysOut [] blanks
  | first {blanks token written rest : List Char} {tokens : List (List Char)}
      (hb : Gap blanks) (hw : Writes token written) (hr : Behind tokens rest) :
      LaysOut (token :: tokens) (blanks ++ (written ++ rest))

variable {token written blanks word rest cs : List Char} {tokens : List (List Char)}

theorem tokensFrom_between_cons {c : Char} (h : isBlank c = true) :
    tokensFrom .between (c :: cs) = tokensFrom .between cs := by
  rw [tokensFrom, if_pos h]

theorem tokensFrom_blanks (hb : Gap blanks) :
    tokensFrom .between (blanks ++ cs) = tokensFrom .between cs := by
  induction blanks with
  | nil => rfl
  | cons c blanks ih =>
    obtain ⟨hc, hrest⟩ := List.forall_mem_cons.1 hb
    rw [List.cons_append, tokensFrom_between_cons hc, ih hrest]

theorem tokensFrom_bare_append (hs : Solid word) :
    tokensFrom (.bare token) (word ++ cs) = tokensFrom (.bare (token ++ word)) cs := by
  induction word generalizing token with
  | nil => simp
  | cons c word ih =>
    obtain ⟨hc, hrest⟩ := List.forall_mem_cons.1 hs
    rw [List.cons_append, tokensFrom, if_neg (by simp [hc]), ih hrest, List.append_assoc,
      List.singleton_append]

theorem tokensFrom_quoted_append (hq : '"' ∉ word) :
    tokensFrom (.quoted token) (word ++ '"' :: cs) = (token ++ word) :: tokensFrom .between cs := by
  induction word generalizing token with
  | nil => simp [tokensFrom]
  | cons c word ih =>
    obtain ⟨hc, hrest⟩ := List.ne_and_not_mem_of_not_mem_cons hq
    rw [List.cons_append, tokensFrom, if_neg (Ne.symm hc), ih hrest, List.append_assoc,
      List.singleton_append]

/-- A token ends before white space and at the end of the text. -/
theorem tokensFrom_bare_end (h : ∀ c, cs.head? = some c → isBlank c = true) :
    tokensFrom (.bare token) cs = token :: tokensFrom .between cs := by
  cases cs with
  | nil => rfl
  | cons c cs =>
    have hc := h c rfl
    rw [tokensFrom_between_cons hc, tokensFrom, if_pos hc]

theorem tokensFrom_written (hw : Writes token written)
    (hr : ∀ c, rest.head? = some c → isBlank c = true) :
    tokensFrom .between (written ++ rest) = token :: tokensFrom .between rest := by
  cases hw with
  | bare hn hs hq =>
    obtain ⟨c, word, rfl⟩ := List.exists_cons_of_ne_nil hn
    obtain ⟨hc, hword⟩ := List.forall_mem_cons.1 hs
    have hne : c ≠ '"' := by
      rintro rfl
      exact hq rfl
    rw [List.cons_append, tokensFrom, if_neg (by simp [hc]), if_neg hne, tokensFrom_bare_append hword,
      tokensFrom_bare_end hr, List.singleton_append]
  | quoted hq =>
    have hquote : isBlank '"' = false := by decide
    rw [List.cons_append, List.cons_append, tokensFrom, if_neg (by simp [hquote]), if_pos rfl,
      List.append_assoc, List.singleton_append, tokensFrom_quoted_append hq, List.nil_append]

theorem Behind.head?_blank (h : Behind tokens cs) :
    ∀ c, cs.head? = some c → isBlank c = true := by
  cases h with
  | done hb =>
    intro c hc
    exact hb c (List.mem_of_mem_head? hc)
  | next hn hb hw hr =>
    obtain ⟨first, blanks, rfl⟩ := List.exists_cons_of_ne_nil hn
    intro c hc
    obtain rfl := Option.some.inj hc
    exact hb first List.mem_cons_self

theorem tokensFrom_behind (h : Behind tokens cs) : tokensFrom .between cs = tokens := by
  induction h with
  | @done blanks hb =>
    rw [← List.append_nil blanks, tokensFrom_blanks hb, tokensFrom]
  | next hn hb hw hr ih =>
    rw [tokensFrom_blanks hb, tokensFrom_written hw hr.head?_blank, ih]

theorem tokensFrom_laysOut (h : LaysOut tokens cs) : tokensFrom .between cs = tokens := by
  cases h with
  | blank hb => exact tokensFrom_behind (.done hb)
  | first hb hw hr =>
    rw [tokensFrom_blanks hb, tokensFrom_written hw hr.head?_blank, tokensFrom_behind hr]

/-- The mode in which a word without a quote is read. -/
def wordMode (word : List Char) : Mode := if word = [] then .between else .bare word

/-- Without quotes, tokens are what white space separates. -/
theorem tokensFrom_wordMode (word : List Char) (h : '"' ∉ cs) :
    tokensFrom (wordMode word) cs = wordsFrom word cs := by
  induction cs generalizing word with
  | nil => cases word <;> simp [wordMode, tokensFrom, wordsFrom]
  | cons c cs ih =>
    obtain ⟨hc, hrest⟩ := List.ne_and_not_mem_of_not_mem_cons h
    have hbetween : tokensFrom .between cs = wordsFrom [] cs := ih [] hrest
    have hgrown : tokensFrom (.bare (word ++ [c])) cs = wordsFrom (word ++ [c]) cs := by
      rw [← ih _ hrest, wordMode, if_neg (by simp)]
    cases word with
    | nil =>
      rw [wordMode, if_pos rfl, tokensFrom, wordsFrom, if_neg (Ne.symm hc), hbetween]
      split
      · rfl
      · exact hgrown
    | cons first word =>
      rw [wordMode, if_neg (by simp), tokensFrom, wordsFrom, hbetween, hgrown]
      rfl

/-- Tokens are read back from each text that lays them out, those with quotes or white space inside
and the empty ones included. A text without quotes is read as the words that white space separates.
-/
theorem tokens_found_in_each_layout (text : String) :
    (∀ tokens : List String, LaysOut (tokens.map String.toList) text.toList →
      ResponseFile.tokens text = tokens) ∧
    ('"' ∉ text.toList → ResponseFile.tokens text = Text.words text) := by
  constructor
  · intro tokens h
    rw [ResponseFile.tokens, tokensFrom_laysOut h, List.map_map]
    have hid : String.ofList ∘ String.toList = id := funext fun _ => String.ofList_toList
    rw [hid, List.map_id]
  · intro h
    have hwords : tokensFrom .between text.toList = wordsFrom [] text.toList :=
      tokensFrom_wordMode [] h
    rw [ResponseFile.tokens, hwords, Text.words]

theorem tokens_found_in_each_layout_mixed :
    ResponseFile.tokens " say\"so\" \"\"\n\u3000\"--out \t\" -m" = ["say\"so\"", "", "--out \t", "-m"] ∧
    ResponseFile.tokens "-m\u2003amd \r\n" = Text.words "-m\u2003amd \r\n" := by
  constructor
  · apply (tokens_found_in_each_layout _).1
    have hm : Behind ["-m".toList] (" ".toList ++ ("-m".toList ++ [])) :=
      .next (by decide) (by decide) (.bare (by decide) (by decide) (by decide)) (.done (by decide))
    have hout : Behind ["--out \t".toList, "-m".toList]
        ("\n\u3000".toList ++ ("\"--out \t\"".toList ++ (" ".toList ++ ("-m".toList ++ [])))) :=
      .next (by decide) (by decide) (.quoted (by decide)) hm
    have hempty : Behind ["".toList, "--out \t".toList, "-m".toList] (" ".toList ++ ("\"\"".toList ++
        ("\n\u3000".toList ++ ("\"--out \t\"".toList ++ (" ".toList ++ ("-m".toList ++ [])))))) :=
      .next (by decide) (by decide) (.quoted (by decide)) hout
    have hsay : Writes "say\"so\"".toList "say\"so\"".toList :=
      .bare (by decide) (by decide) (by decide)
    have hgap : Gap " ".toList := by decide
    exact .first hgap hsay hempty
  · exact (tokens_found_in_each_layout _).2 (by decide)

end ScriptHost.ResponseFile
