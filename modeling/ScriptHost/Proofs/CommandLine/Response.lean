import ScriptHost.Proofs.CommandLine.Composition

/-! A response file in a command line: its tokens stand for its name, but name no further response
files, and no option takes its value across either end of the file. -/

namespace ScriptHost.CommandLine

variable {files : ResponseFiles} {file text token : String} {tokens xs ys before after : List String}
  {line : CommandLine} {waiting : Pending}

theorem responseName?_eq_none_iff :
    responseName? token = none ↔ token.toList.head? ≠ some '@' := by
  rw [responseName?]
  split
  · next name hc => simp [hc]
  · next hne =>
    simp only [ne_eq, true_iff]
    intro hh
    obtain ⟨rest, hc⟩ := List.head?_eq_some_iff.1 hh
    exact hne rest hc

theorem exists_responseName?_iff :
    (∃ name, responseName? token = some name) ↔ token.toList.head? = some '@' := by
  rw [← not_iff_not, ← ne_eq, ← responseName?_eq_none_iff, Option.eq_none_iff_forall_ne_some,
    not_exists]

theorem pendingAfter_of_responseName? (h : responseName? token = some file) :
    pendingAfter none token = none := by
  have hn : token ≠ "" := by
    rintro rfl
    cases h
  rw [pendingAfter_none hn, opened?_of_responseName? h]

theorem pending?_append_response (h : responseName? token = some file) (hx : pending? xs = none) :
    pending? (xs ++ [token]) = none := by
  rw [pending?_append, hx]
  exact pendingAfter_of_responseName? h

theorem changesFrom_response {response : String → Option (List Change)}
    (h : responseName? token = some file) :
    changesFrom response none [token] = (response file).getD [.addFile token] := by
  have hn : token ≠ "" := by
    rintro rfl
    cases h
  rw [changesFrom, List.foldl_cons, List.foldl_nil, changesUpTo, changesUpTo,
    pendingAfter_of_responseName? h, changesOf_none hn, freeChanges, h, Option.bind_some, ownChanges,
    optionName?_of_responseName? h]
  cases response file <;> simp [missed]

/-- Where no token asks for a response file, it makes no difference what such files hold. -/
theorem changesUpTo_congr {response other : String → Option (List Change)} {start : Option Pending}
    (h : ∀ token ∈ tokens, responseName? token = none) :
    changesUpTo response start tokens = changesUpTo other start tokens := by
  induction tokens generalizing start with
  | nil => rfl
  | cons token tokens ih =>
    obtain ⟨ht, hrest⟩ := List.forall_mem_cons.1 h
    have hc : changesOf response start token = changesOf other start token := by
      simp only [changesOf, freeChanges, ht, Option.bind_none]
    rw [changesUpTo, changesUpTo, hc, ih hrest]

theorem changes_eq_plainChanges (h : ∀ token ∈ tokens, responseName? token = none) :
    changes files tokens = plainChanges tokens := by
  rw [changes, plainChanges, changesFrom, changesFrom, changesUpTo_congr h]

theorem parse_append_response (ht : files file = some text) (hx : pending? xs = none) :
    parse files (xs ++ ["@" ++ file]) = readPlain (ResponseFile.tokens text) (parse files xs) := by
  have hc : changes files ["@" ++ file] = responseChanges files file :=
    changesFrom_response (responseName?_eq_some_iff.2 rfl)
  rw [parse_append_of_not_pending hx, hc, responseChanges, ht, readPlain_eq_applyAll]

theorem readPlain_append_of_not_pending (h : pending? xs = none) :
    readPlain (xs ++ ys) line = readPlain ys (readPlain xs line) := by
  rw [readPlain_eq_applyAll, readPlain_eq_applyAll, readPlain_eq_applyAll, plainChanges,
    changesFrom_append_of_not_pending h, applyAll_append]
  rfl

/-- In a response file, a token that looks like the name of another one is the name of a source. -/
theorem readPlain_of_response (h : responseName? token = some file) (hb : pending? before = none) :
    readPlain (before ++ token :: after) line =
      readPlain after ((readPlain before line).apply (.addFile token)) := by
  have hone : readPlain [token] (readPlain before line) =
      (readPlain before line).apply (.addFile token) := by
    rw [readPlain_eq_applyAll, plainChanges, changesFrom_response h]
    rfl
  have hp : pending? [token] = none := pendingAfter_of_responseName? h
  rw [readPlain_append_of_not_pending hb, ← List.singleton_append,
    readPlain_append_of_not_pending hp, hone]

theorem readPlain_of_value (hn : token ≠ "") (hb : pending? before = some waiting) :
    readPlain (before ++ token :: after) line =
      readPlain after ((readPlain before line).taking waiting token) := by
  have hnone : ∀ blank ∈ ([] : List String), blank = "" := by simp
  rw [readPlain_eq_applyAll, readPlain_eq_applyAll, readPlain_eq_applyAll]
  exact applyAll_append_of_value hb hnone hn

theorem fileNames_readPlain :
    (readPlain tokens line).fileNames = line.fileNames ++ (readPlain tokens {}).fileNames := by
  rw [readPlain_eq_applyAll, readPlain_eq_applyAll, fileNames_applyAll, fileNames_applyAll]
  rfl

/-- A response file that can be read, where no option is waiting for a value. Its tokens are read
where its name stands, and the tokens behind are read as they are alone. So the file stands for its
tokens, if none of them starts with `@` and they leave no option waiting. A token of the file that
starts with `@` is the name of a source unless an option takes it as its value, and an option that
the tokens of the file leave waiting is reported and has no value. -/
theorem response_file_stands_for_its_tokens (ht : files file = some text) (hx : pending? xs = none)
    (ys : List String) :
    let tokens := ResponseFile.tokens text
    let read := readPlain tokens (parse files xs)
    let line := parse files (xs ++ ["@" ++ file] ++ ys)
    ((∀ token ∈ tokens, token.toList.head? ≠ some '@') → pending? tokens = none →
      line = parse files (xs ++ tokens ++ ys)) ∧
    Continues files read ys line ∧
    (∀ before token after, tokens = before ++ token :: after → token.toList.head? = some '@' →
      (pending? before = none → line.fileNames =
        (parse files xs).fileNames ++ (readPlain before {}).fileNames ++
          token :: (readPlain after {}).fileNames ++ (parse files ys).fileNames) ∧
      ∀ waiting, pending? before = some waiting →
        read = readPlain after ((readPlain before (parse files xs)).taking waiting token)) ∧
    ∀ waiting, pending? tokens = some waiting →
      read.errors.getLast? = some (missingValue waiting.name) ∧
      read.options.valueOf waiting.option = none := by
  intro tokens read line
  have hname : responseName? ("@" ++ file) = some file := responseName?_eq_some_iff.2 rfl
  have hread : parse files (xs ++ ["@" ++ file]) = read := parse_append_response ht hx
  have hline : line = read.applyAll (changes files ys) := by
    rw [← hread]
    exact parse_append_of_not_pending (pending?_append_response hname hx)
  have hcontinues : Continues files read ys line := hline ▸ continues_applyAll files read ys
  refine ⟨fun hat hp => ?_, hcontinues, ?_, fun waiting hw => ?_⟩
  · have hplain : parse files (xs ++ tokens) = read := by
      have hc : changes files tokens = plainChanges tokens :=
        changes_eq_plainChanges fun token hm => responseName?_eq_none_iff.2 (hat token hm)
      rw [parse_append_of_not_pending hx, hc, ← readPlain_eq_applyAll]
    have hnone : pending? (xs ++ tokens) = none := by
      rw [pending?_append, hx]
      exact hp
    rw [hline, ← hplain]
    exact (parse_append_of_not_pending hnone).symm
  · intro before token after hsplit hat
    obtain ⟨name, hresponse⟩ := exists_responseName?_iff.2 hat
    constructor
    · intro hb
      have hnames : read.fileNames = (parse files xs).fileNames ++ (readPlain before {}).fileNames ++
          token :: (readPlain after {}).fileNames := by
        rw [show read = readPlain (before ++ token :: after) (parse files xs) from hsplit ▸ rfl,
          readPlain_of_response hresponse hb, fileNames_readPlain, fileNames_apply,
          fileNames_readPlain]
        simp [Change.file?]
      rw [hcontinues.fileNames, hnames]
    · intro waiting hb
      have hn : token ≠ "" := by
        rintro rfl
        cases hat
      rw [show read = readPlain (before ++ token :: after) (parse files xs) from hsplit ▸ rfl,
        readPlain_of_value hn hb]
  · have hread : read = ((parse files xs).applyAll (changesUpTo (fun _ => none) none tokens)).applyAll
        [.setValue waiting.option none, .report (missingValue waiting.name)] := by
      rw [← applyAll_append, ← changesFrom_of_pending hw]
      exact readPlain_eq_applyAll _ _
    rw [hread]
    simp [apply]

/-- A file with a quoted value, and one with names of further files that ends in an option. -/
def twoResponses : ResponseFiles := fun name =>
  if name = "quoted" then some "--out \"\" \"all of it.js\" c.ts"
  else if name = "open" then some "@more -t @ES5 c.ts --out"
  else none

theorem response_file_stands_for_its_tokens_open :
    parse twoResponses (["--out", "a.js"] ++ ["@quoted"] ++ ["--noLib"]) =
      parse twoResponses (["--out", "a.js"] ++ ["--out", "", "all of it.js", "c.ts"] ++ ["--noLib"]) ∧
    (let line := parse twoResponses (["--out", "a.js"] ++ ["@open"] ++ ["b.ts"])
    line.fileNames = ["@more", "c.ts", "b.ts"] ∧ line.options.target = some "@ES5" ∧
    line.options.out = none ∧ line.errors = [missingValue "out"]) := by
  have hx : pending? ["--out", "a.js"] = none := by decide +kernel
  have hquoted : ResponseFile.tokens "--out \"\" \"all of it.js\" c.ts" =
      ["--out", "", "all of it.js", "c.ts"] := by decide +kernel
  have hopen : ResponseFile.tokens "@more -t @ES5 c.ts --out" =
      ["@more", "-t", "@ES5", "c.ts", "--out"] := by decide +kernel
  constructor
  · have ht : twoResponses "quoted" = some "--out \"\" \"all of it.js\" c.ts" := rfl
    obtain ⟨h, -⟩ := response_file_stands_for_its_tokens ht hx ["--noLib"]
    rw [hquoted] at h
    exact h (by decide +kernel) (by decide +kernel)
  · have ht : twoResponses "open" = some "@more -t @ES5 c.ts --out" := rfl
    obtain ⟨-, hc, hat, hw⟩ := response_file_stands_for_its_tokens ht hx ["b.ts"]
    rw [hopen] at hc hat hw
    have hb : ∀ option, ¬ Processes twoResponses ["b.ts"] option := by
      intro option
      rw [processes_iff, show changes twoResponses ["b.ts"] = [.addFile "b.ts"] by decide +kernel]
      simp
    obtain ⟨-, hout⟩ := hw ⟨.out, "out"⟩ (by decide +kernel)
    have hnames := (hat [] "@more" ["-t", "@ES5", "c.ts", "--out"] rfl rfl).1 rfl
    refine ⟨hnames.trans (by decide +kernel), ?_, ?_, hc.errors.trans (by decide +kernel)⟩
    · exact (hc.valueOf_of_not_processes .target (hb _)).trans (by decide +kernel)
    · exact (hc.valueOf_of_not_processes .out (hb _)).trans hout

end ScriptHost.CommandLine
