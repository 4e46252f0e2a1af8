import ScriptHost.Proofs.CommandLine.Reading

/-! A command line in two parts: the second part is read as it is alone, unless the first one ends
in an option that still waits for its value. -/

namespace ScriptHost.CommandLine

variable {files : ResponseFiles} {tokens xs ys : List String} {option : ValueOption}

/-- The token lists that make up a command line: its own tokens, and those of the response files
that it asks for. -/
inductive Part (files : ResponseFiles) (tokens : List String) : List String → Prop
  | own : Part files tokens tokens
  | response {name text : String} (hm : Meets tokens none ("@" ++ name))
      (ht : files name = some text) : Part files tokens (ResponseFile.tokens text)

/-- Whether an option with a value is named in its place, with a value behind it or not. -/
def Names (tokens : List String) (option : ValueOption) : Prop :=
  ∃ flag name, Meets tokens none flag ∧ opened? flag = some ⟨option, name⟩

/-- Whether an option with a value is processed when tokens are read. -/
def Processes (files : ResponseFiles) (tokens : List String) (option : ValueOption) : Prop :=
  ∃ part, Part files tokens part ∧ Names part option

/-- What a command line changes, one of its parts makes, unless a response file cannot be read. -/
theorem makes_of_mem {change : Change} (h : change ∈ changes files tokens) :
    (∃ part, Part files tokens part ∧ Makes (fun _ => none) part change) ∨
      ∃ name, change = .report (unreadable name) := by
  cases mem_changesFrom_iff.1 h with
  | value hm hn => exact .inl ⟨tokens, .own, .value hm hn⟩
  | response hm hr hc =>
    obtain rfl := Option.some.inj hr
    rcases mem_responseChanges_iff.1 hc with ⟨text, ht, hc⟩ | ⟨-, hc⟩
    · exact .inl ⟨_, .response hm ht, mem_changesFrom_iff.1 hc⟩
    · exact .inr ⟨_, hc⟩
  | @own token _ hm hn hr hc =>
    have hnone : (responseName? token).bind (fun _ => (none : Option (List Change))) = none := by
      simp
    exact .inl ⟨tokens, .own, .own hm hn hnone hc⟩
  | missing hp hc => exact .inl ⟨tokens, .own, .missing hp hc⟩

section Processed

variable {response : String → Option (List Change)} {value : Option String} {token : String}

theorem setValue_not_mem_ownChanges : .setValue option value ∉ ownChanges token := by
  rw [ownChanges]
  split
  · simp
  · rw [optionChanges.eq_def]
    split <;> simp

theorem names_of_pending {waiting : Pending} (h : pending? tokens = some waiting) (rest : List String) :
    Names (tokens ++ rest) waiting.option := by
  obtain ⟨before, flag, after, rfl, hb, ho, -⟩ := pending?_eq_some_iff.1 h
  exact ⟨flag, waiting.name, ⟨before, after ++ rest, by simp, hb⟩, ho⟩

/-- An option that is named gets a value or is found to have none. -/
theorem Names.exists_mem (h : Names tokens option) (response : String → Option (List Change)) :
    ∃ value, .setValue option value ∈ changesFrom response none tokens := by
  obtain ⟨flag, name, ⟨before, after, rfl, hb⟩, ho⟩ := h
  by_cases ha : ∀ token ∈ after, token = ""
  · have hp : pending? (before ++ flag :: after) = some ⟨option, name⟩ :=
      pending?_eq_some_iff.2 ⟨before, flag, after, rfl, hb, ho, ha⟩
    exact ⟨none, mem_changesFrom_iff.2 (.missing hp List.mem_cons_self)⟩
  · obtain ⟨blanks, value, rest, rfl, hblanks, hv⟩ := exists_first_nonempty ha
    have hp : pending? (before ++ flag :: blanks) = some ⟨option, name⟩ :=
      pending?_eq_some_iff.2 ⟨before, flag, blanks, rfl, hb, ho, hblanks⟩
    exact ⟨some value, mem_changesFrom_iff.2
      (.value ⟨before ++ flag :: blanks, rest, by simp, hp⟩ hv)⟩

/-- What sets a value is an option that is named. -/
theorem Makes.names (h : Makes (fun _ => none) tokens (.setValue option value)) :
    Names tokens option := by
  cases h with
  | value hm hn =>
    obtain ⟨before, after, rfl, hp⟩ := hm
    exact names_of_pending hp _
  | response hm hr hc => cases hr
  | own hm hn hr hc => exact absurd hc setValue_not_mem_ownChanges
  | @missing waiting change hp hc =>
    have hs : option = waiting.option := by
      simp only [missed, List.mem_cons, Change.setValue.injEq, reduceCtorEq, List.not_mem_nil,
        or_self, or_false] at hc
      exact hc.1
    have hn := names_of_pending hp []
    rw [List.append_nil] at hn
    exact hs ▸ hn

/-- An option is processed where a change is made to its value. -/
theorem processes_iff : Processes files tokens option ↔
    ∃ value, .setValue option value ∈ changes files tokens := by
  constructor
  · rintro ⟨part, hp, hn⟩
    cases hp with
    | own => exact hn.exists_mem _
    | @response name text hm ht =>
      obtain ⟨value, hv⟩ := hn.exists_mem fun _ => none
      exact ⟨value, mem_changesFrom_iff.2
        (.response hm rfl (mem_responseChanges_iff.2 (.inl ⟨text, ht, hv⟩)))⟩
  · rintro ⟨value, hv⟩
    rcases makes_of_mem hv with ⟨part, hp, hm⟩ | ⟨name, hname⟩
    · exact ⟨part, hp, hm.names⟩
    · cases hname

end Processed

/-- Whether a command line is what reading further tokens makes of an earlier one. -/
structure Continues (files : ResponseFiles) (first : CommandLine) (tokens : List String)
    (line : CommandLine) : Prop where
  fileNames : line.fileNames = first.fileNames ++ (parse files tokens).fileNames
  errors : line.errors = first.errors ++ (parse files tokens).errors
  isOn_iff (switch : Switch) : line.options.isOn switch = true ↔
    first.options.isOn switch = true ∨ (parse files tokens).options.isOn switch = true
  valueOf_of_processes (option : ValueOption) (h : Processes files tokens option) :
    line.options.valueOf option = (parse files tokens).options.valueOf option
  valueOf_of_not_processes (option : ValueOption) (h : ¬ Processes files tokens option) :
    line.options.valueOf option = first.options.valueOf option
  defaultLibrary : line.options.defaultLibrary = first.options.defaultLibrary

theorem continues_applyAll (files : ResponseFiles) (first : CommandLine) (tokens : List String) :
    Continues files first tokens (first.applyAll (changes files tokens)) where
  fileNames := by rw [parse_eq_applyAll, fileNames_applyAll, fileNames_applyAll]; rfl
  errors := by rw [parse_eq_applyAll, errors_applyAll, errors_applyAll]; rfl
  isOn_iff switch := by
    rw [parse_eq_applyAll, isOn_applyAll_iff, isOn_applyAll_iff]
    simp
  valueOf_of_processes option h := by
    obtain ⟨value, hv⟩ := processes_iff.1 h
    have hne : (changes files tokens).filterMap (Change.value? option) ≠ [] :=
      List.ne_nil_of_mem (Change.mem_filterMap_value?_iff.2 hv)
    rw [parse_eq_applyAll, valueOf_applyAll, valueOf_applyAll, List.getLast?_eq_some_getLast hne,
      Option.getD_some, Option.getD_some]
  valueOf_of_not_processes option h := by
    have hnil : (changes files tokens).filterMap (Change.value? option) = [] := by
      apply List.eq_nil_iff_forall_not_mem.2
      intro value hv
      exact h (processes_iff.2 ⟨value, Change.mem_filterMap_value?_iff.1 hv⟩)
    rw [valueOf_applyAll, hnil, List.getLast?_nil, Option.getD_none]
  defaultLibrary := defaultLibrary_applyAll _ _

theorem parse_append_of_not_pending (h : pending? xs = none) :
    parse files (xs ++ ys) = (parse files xs).applyAll (changes files ys) := by
  rw [parse_eq_applyAll, parse_eq_applyAll, changes, changesFrom_append_of_not_pending h,
    applyAll_append]
  rfl

/-- Tokens behind others are read as they are alone: files and diagnostics follow those of the first
part, a switch is on if either part turns it on, and the second part decides on the options with a
value that it processes. Where the first part leaves an option waiting, it is that option which
takes the first token of the second part that is not empty, whatever it looks like; then its
diagnostic is gone, and the tokens behind are read as they are alone. -/
theorem second_part_is_read_alone (files : ResponseFiles) (xs ys : List String) :
    (pending? xs = none → Continues files (parse files xs) ys (parse files (xs ++ ys))) ∧
    ∀ waiting, pending? xs = some waiting →
      (parse files xs).errors.getLast? = some (missingValue waiting.name) ∧
      ((∀ token ∈ ys, token = "") → parse files (xs ++ ys) = parse files xs) ∧
      ∀ blanks value rest, ys = blanks ++ value :: rest → (∀ token ∈ blanks, token = "") →
        value ≠ "" →
          Continues files ((parse files xs).taking waiting value) rest (parse files (xs ++ ys)) := by
  refine ⟨fun h => ?_, fun waiting h => ⟨?_, fun he => ?_, ?_⟩⟩
  · rw [parse_append_of_not_pending h]
    exact continues_applyAll files _ ys
  · rw [parse_eq_applyAll, changes, changesFrom_of_pending h, applyAll_append]
    simp [apply]
  · rw [parse_eq_applyAll, changes, changesFrom_append_of_empty h he, parse_eq_applyAll, changes]
  · rintro blanks value rest rfl hb hv
    have hread : parse files (xs ++ (blanks ++ value :: rest)) =
        ((parse files xs).taking waiting value).applyAll (changes files rest) := by
      rw [parse_eq_applyAll, parse_eq_applyAll]
      exact applyAll_append_of_value h hb hv
    rw [hread]
    exact continues_applyAll files _ rest

theorem second_part_is_read_alone_taken :
    let files : ResponseFiles := fun name => if name = "more" then some "-m amd \"\" c.ts" else none
    let line := parse files (["a.ts", "--noLib", "-t"] ++ ["", "@more", "@more", "b.ts", "--out"])
    line.options.target = some "@more" ∧ line.options.module = some "amd" ∧
    line.options.noLib = true ∧ line.fileNames = ["a.ts", "c.ts", "b.ts"] ∧
    line.errors = [missingValue "out"] := by
  intro files line
  have hw : pending? ["a.ts", "--noLib", "-t"] = some ⟨.target, "t"⟩ := by decide +kernel
  obtain ⟨-, -, htake⟩ := (second_part_is_read_alone files _ _).2 _ hw
  have h : Continues files _ _ line :=
    htake [""] "@more" ["@more", "b.ts", "--out"] rfl (by simp) (by decide)
  have hc : changes files ["@more", "b.ts", "--out"] =
      [.setValue .module (some "amd"), .addFile "c.ts", .addFile "b.ts", .setValue .out none,
        .report (missingValue "out")] := by decide +kernel
  have hm : Processes files ["@more", "b.ts", "--out"] .module :=
    processes_iff.2 ⟨some "amd", by simp [hc]⟩
  have ht : ¬ Processes files ["@more", "b.ts", "--out"] .target := by simp [processes_iff, hc]
  refine ⟨?_, ?_, ?_, ?_, ?_⟩
  · exact (h.valueOf_of_not_processes .target ht).trans (by decide +kernel)
  · exact (h.valueOf_of_processes .module hm).trans (by decide +kernel)
  · exact (h.isOn_iff .noLib).2 (.inl (by decide +kernel))
  · exact h.fileNames.trans (by decide +kernel)
  · exact h.errors.trans (by decide +kernel)

end ScriptHost.CommandLine
