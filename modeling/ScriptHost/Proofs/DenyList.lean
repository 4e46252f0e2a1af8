import Mathlib.Data.List.Perm.Basic
import ScriptHost.Engine.DenyList
import ScriptHost.Proofs.Compilation.Phases
import ScriptHost.Proofs.Text.Runs

/-! A full check with a list of names that are unknown: it reports each word of a source that is on
the list. The search for a name goes on behind what it has found, and passes over no word by that: a
name that is found inside a word ends with it at the latest. -/

namespace ScriptHost

namespace DenyList

open Text (Run runsFrom byteLength)

/-- A name that a list can hold: it can be a word. -/
structure IsName (letters : List Char) : Prop where
  ne_nil : letters ≠ []
  all : ∀ c ∈ letters, isNameChar c = true

theorem isName_iff {letters : List Char} :
    letters ≠ [] ∧ letters.all isNameChar = true ↔ IsName letters :=
  ⟨fun h => ⟨h.1, List.all_eq_true.1 h.2⟩, fun h => ⟨h.ne_nil, List.all_eq_true.2 h.all⟩⟩

instance : DecidablePred IsName := fun _ => decidable_of_iff _ isName_iff

/-- The words of a source: its longest runs of characters that names consist of. -/
def words (source : SourceText) : List Run := runsFrom isNameChar 0 source.text.toList

/-- The diagnostic for a name where it stands as a word. -/
def unknown (source : SourceText) (word : Run) (name : String) : Diagnostic :=
  (Diagnostic.error 2304 ("Cannot find name '" ++ name ++ "'.")).locate source word.start
    (byteLength word.letters)

/-- The diagnostics for the words of a source that are on a list, one for each time that it holds
them. -/
def denied (names : List String) (source : SourceText) : List Diagnostic :=
  (words source).flatMap fun word =>
    (names.filter (word.letters = ·.toList)).map (unknown source word)

variable {word run rest more cs : List Char} {before : Option Char} {skip offset : Nat} {c : Char}
  {names : List String} {source : SourceText}

theorem IsName.isPrefixOf?_eq_none (h : IsName word) (hr : rest.head?.any isNameChar = false) :
    word.isPrefixOf? rest = none := by
  obtain ⟨d, word, rfl⟩ := List.exists_cons_of_ne_nil h.ne_nil
  cases rest with
  | nil => rfl
  | cons c rest =>
    have hne : d ≠ c := by
      rintro rfl
      have hd := h.all d List.mem_cons_self
      simp [hd] at hr
    simp [List.isPrefixOf?, hne]

/-- Where no name can begin, it does not matter what comes before. -/
theorem usesFrom_before (h : IsName word) (hr : rest.head?.any isNameChar = false) :
    usesFrom word 0 offset before rest = usesFrom word 0 offset none rest := by
  cases rest with
  | nil => simp [usesFrom, h.ne_nil]
  | cons c rest => simp only [usesFrom, h.isPrefixOf?_eq_none hr]

theorem usesFrom_cons_of_not (h : IsName word) (hc : isNameChar c = false) :
    usesFrom word 0 offset none (c :: cs) = usesFrom word 0 (offset + c.utf8Size) none cs := by
  have hp : word.isPrefixOf? (c :: cs) = none := h.isPrefixOf?_eq_none hc
  simp only [usesFrom, hp]
  cases cs <;> simp [usesFrom, hc]

/-- A name that is found at the beginning of a run is no longer than the run. -/
theorem IsName.exists_run_eq (h : IsName word) (he : word ++ more = run ++ rest)
    (hr : rest.head?.any isNameChar = false) : ∃ left, run = word ++ left ∧ more = left ++ rest := by
  rcases List.append_eq_append_iff.1 he with hleft | ⟨extra, hword, hrest⟩
  · exact hleft
  · cases extra with
    | nil => exact ⟨[], by simpa using hword.symm, by simpa using hrest.symm⟩
    | cons d extra =>
      have hd := h.all d (by simp [hword])
      simp [hrest, hd] at hr

theorem IsName.length_le_length_run (h : IsName word)
    (hp : word.isPrefixOf? (c :: (run ++ rest)) = some more)
    (hr : rest.head?.any isNameChar = false) : word.length - 1 ≤ run.length := by
  have he : word ++ more = c :: run ++ rest := List.isPrefixOf?_eq_some_iff_append_eq.1 hp
  obtain ⟨left, hrun, -⟩ := h.exists_run_eq he hr
  have hl := congrArg List.length hrun
  rw [List.length_cons, List.length_append] at hl
  omega

/-- Inside a run nothing is found, and a name that was found before ends there. -/
theorem usesFrom_inside (h : IsName word) (hb : before.any isNameChar = true)
    (hrun : ∀ c ∈ run, isNameChar c = true) (hr : rest.head?.any isNameChar = false)
    (hs : skip ≤ run.length) : usesFrom word skip offset before (run ++ rest) =
      usesFrom word 0 (offset + byteLength run) none rest := by
  induction run generalizing skip offset before with
  | nil =>
    obtain rfl : skip = 0 := Nat.le_zero.1 hs
    exact usesFrom_before h hr
  | cons c run ih =>
    obtain ⟨hc, hrun'⟩ := List.forall_mem_cons.1 hrun
    have hi {skip : Nat} (hs : skip ≤ run.length) :
        usesFrom word skip (offset + c.utf8Size) (some c) (run ++ rest) =
          usesFrom word 0 (offset + byteLength (c :: run)) none rest := by
      rw [ih (show (some c).any isNameChar = true from hc) hrun' hs, Text.byteLength_cons,
        Nat.add_assoc]
    cases skip with
    | succ skip => exact hi (Nat.le_of_succ_le_succ hs)
    | zero =>
      rw [List.cons_append, usesFrom]
      cases hp : word.isPrefixOf? (c :: (run ++ rest)) with
      | none => exact hi (Nat.zero_le _)
      | some more =>
        simp only [hb, Bool.true_or, if_true, List.nil_append]
        exact hi (h.length_le_length_run hp hr)

theorem head?_append_any_eq_false_iff {left : List Char} (hl : ∀ c ∈ left, isNameChar c = true)
    (hr : rest.head?.any isNameChar = false) :
    (left ++ rest).head?.any isNameChar = false ↔ left = [] := by
  cases left with
  | nil => simpa using hr
  | cons d left => simp [hl d List.mem_cons_self]

/-- At the beginning of a run a name is found just if it is the run. -/
theorem usesFrom_run (h : IsName word) (hn : run ≠ [])
    (hrun : ∀ c ∈ run, isNameChar c = true) (hr : rest.head?.any isNameChar = false) :
    usesFrom word 0 offset none (run ++ rest) =
      (if run = word then [offset] else []) ++
        usesFrom word 0 (offset + byteLength run) none rest := by
  cases run with
  | nil => exact absurd rfl hn
  | cons c run =>
    obtain ⟨hc, hrun'⟩ := List.forall_mem_cons.1 hrun
    have hi {skip : Nat} (hs : skip ≤ run.length) :
        usesFrom word skip (offset + c.utf8Size) (some c) (run ++ rest) =
          usesFrom word 0 (offset + byteLength (c :: run)) none rest := by
      rw [usesFrom_inside h (show (some c).any isNameChar = true from hc) hrun' hr hs,
        Text.byteLength_cons, Nat.add_assoc]
    rw [List.cons_append, usesFrom]
    cases hp : word.isPrefixOf? (c :: (run ++ rest)) with
    | none =>
      have hne : c :: run ≠ word := by
        rintro rfl
        have hs : (c :: run).isPrefixOf? (c :: run ++ rest) = some rest :=
          List.isPrefixOf?_eq_some_iff_append_eq.2 rfl
        rw [List.cons_append, hp] at hs
        simp at hs
      rw [if_neg hne, List.nil_append]
      exact hi (Nat.zero_le _)
    | some more =>
      have he : word ++ more = c :: run ++ rest := List.isPrefixOf?_eq_some_iff_append_eq.1 hp
      obtain ⟨left, hleft, rfl⟩ := h.exists_run_eq he hr
      have hwhole : (left ++ rest).head?.any isNameChar = false ↔ c :: run = word := by
        rw [hleft, List.append_right_eq_self]
        exact head?_append_any_eq_false_iff
          (fun d hd => hrun d (hleft ▸ List.mem_append_right _ hd)) hr
      simp only [Option.any_none, Bool.false_or]
      rw [hi (h.length_le_length_run hp hr)]
      by_cases hw : c :: run = word
      · rw [if_pos hw, hwhole.2 hw]
        rfl
      · rw [if_neg hw, if_pos (Bool.eq_true_of_not_eq_false (mt hwhole.1 hw))]

/-- The offsets at which a name is found are those of the words that it is. -/
theorem usesFrom_eq (h : IsName word) (offset : Nat) (cs : List Char) :
    usesFrom word 0 offset none cs =
      ((runsFrom isNameChar offset cs).filter (·.letters = word)).map Run.start := by
  fun_induction runsFrom isNameChar offset cs with
  | case1 => simp [usesFrom, h.ne_nil]
  | case2 offset c cs hc letters ih =>
    have hsplit : c :: cs = letters ++ cs.dropWhile isNameChar := by simp [letters]
    have hn : letters ≠ [] := List.cons_ne_nil _ _
    have hall : ∀ d ∈ letters, isNameChar d = true := Text.isLetter_of_mem_cons_takeWhile hc
    rw [hsplit, usesFrom_run h hn hall (Text.head?_dropWhile_any cs), ih]
    clear_value letters
    by_cases hw : letters = word <;> simp [hw]
  | case3 offset c cs hc ih => rw [usesFrom_cons_of_not h (Bool.eq_false_iff.2 hc), ih]

variable {name : String}

theorem uses_eq (h : IsName name.toList) (source : SourceText) : uses source name =
    ((words source).filter (·.letters = name.toList)).map (unknown source · name) := by
  rw [uses, usesFrom_eq h, List.map_map, words]
  refine List.map_congr_left fun word hw => ?_
  have hl : word.letters = name.toList := by simpa using (List.mem_filter.1 hw).2
  rw [unknown, hl]
  rfl

theorem map_filter_eq_flatMap {α β : Type} (p : α → Bool) (f : α → β) (as : List α) :
    (as.filter p).map f = as.flatMap fun a => if p a then [f a] else [] := by
  induction as with
  | nil => rfl
  | cons a as ih => by_cases hp : p a = true <;> simp [hp, ih]

/-- What is found name by name is what is found word by word, in another order. -/
theorem perm_flatMap_filter {α β γ : Type} (r : α → β → Bool) (f : α → β → γ) (as : List α)
    (bs : List β) : (as.flatMap fun a => (bs.filter (r a)).map (f a)).Perm
      (bs.flatMap fun b => (as.filter (r · b)).map (f · b)) := by
  induction as with
  | nil => simp
  | cons a as ih =>
    have hcons (b : β) : ((a :: as).filter (r · b)).map (f · b) =
        (if r a b then [f a b] else []) ++ (as.filter (r · b)).map (f · b) := by
      by_cases hr : r a b = true <;> simp [hr]
    simp only [List.flatMap_cons, hcons, map_filter_eq_flatMap (r a)]
    exact (ih.append_left _).trans (List.flatMap_append_perm bs _ _)

theorem eq_of_mem_words {first second : Run} (hf : first ∈ words source)
    (hs : second ∈ words source) (h : first.start = second.start) : first = second := by
  have hn : ((words source).map Run.start).Nodup :=
    List.pairwise_map.2 ((Text.pairwise_runsFrom _ _ _).imp fun hlt => Nat.ne_of_lt hlt)
  exact List.inj_on_of_nodup_map hn hf hs h

theorem mem_denied_iff {diagnostic : Diagnostic} : diagnostic ∈ denied names source ↔
    ∃ word ∈ words source, ∃ name ∈ names, word.letters = name.toList ∧
      unknown source word name = diagnostic := by
  simp [denied, and_assoc]

theorem pairwise_denied (names : List String) (source : SourceText) :
    (denied names source).Pairwise (·.start ≤ ·.start) := by
  refine List.pairwise_flatMap.2 ⟨fun word _ => ?_, ?_⟩
  · exact List.pairwise_map.2 (List.pairwise_of_forall fun _ _ => Nat.le_refl word.start)
  · refine (Text.pairwise_runsFrom _ _ _).imp fun hlt first hf second hs => ?_
    obtain ⟨_, -, rfl⟩ := List.mem_map.1 hf
    obtain ⟨_, -, rfl⟩ := List.mem_map.1 hs
    exact Nat.le_of_lt hlt

/-- Two diagnostics at one place are the same: a word is no more than one name. -/
theorem eq_of_mem_denied {first second : Diagnostic} (hf : first ∈ denied names source)
    (hs : second ∈ denied names source) (h : first.start = second.start) : first = second := by
  obtain ⟨word, hword, name, -, hname, rfl⟩ := mem_denied_iff.1 hf
  obtain ⟨other, hother, twin, -, htwin, rfl⟩ := mem_denied_iff.1 hs
  obtain rfl := eq_of_mem_words hword hother h
  rw [String.toList_inj.1 (hname.symm.trans htwin)]

/-- In the order of their places the uses of all names are the words that are on the list. -/
theorem inSource_eq (h : ∀ name ∈ names, IsName name.toList) (source : SourceText) :
    inSource names source = denied names source := by
  have huses : names.flatMap (uses source) = names.flatMap fun name =>
      ((words source).filter (·.letters = name.toList)).map (unknown source · name) :=
    List.flatMap_congr fun name hm => uses_eq (h name hm) source
  have hperm : (inSource names source).Perm (denied names source) := by
    rw [inSource, huses]
    exact (List.mergeSort_perm _ _).trans (perm_flatMap_filter _ _ _ _)
  have hsorted : (inSource names source).Pairwise (·.start ≤ ·.start) := by
    have hp : (inSource names source).Pairwise fun a b => decide (a.start ≤ b.start) = true := by
      refine List.pairwise_mergeSort (fun a b c hab hbc => ?_) (fun a b => ?_) _
      · simp only [decide_eq_true_eq] at hab hbc ⊢
        exact Nat.le_trans hab hbc
      · simpa using Nat.le_total a.start b.start
    simpa using hp
  refine hperm.eq_of_pairwise (fun first second hf hs hle hge => ?_) hsorted (pairwise_denied _ _)
  exact eq_of_mem_denied (hperm.subset hf) hs (Nat.le_antisymm hle hge)

theorem inProgram_eq (h : ∀ name ∈ names, IsName name.toList) (sources : List SourceText) :
    inProgram names sources = (sources.filter (!·.isDeclaration)).flatMap (denied names) :=
  List.flatMap_congr fun source _ => inSource_eq h source

end DenyList

namespace Engine

variable {request : Request} {names : List String}

/-- The program with the words that are on a list reported in a full check. -/
def denying (names : List String) (program : Program) : Program :=
  { program with
    checker := fun full =>
      { program.checker full with
        semantic := if full then DenyList.inProgram names program.sources else [] } }

theorem denyList_eq (names : List String) :
    denyList names = verbatim.refine (denying names) := rfl

/-- Without a full check it makes no difference what a list says. -/
theorem finish_denying (hf : request.configuration.fullTypeCheck = false) (names : List String)
    (errors : List Diagnostic) (program : Program) (host : Host) (disk : Disk) :
    finish request errors (denying names program) host disk =
      finish request errors program host disk := by
  simp only [finish, hf]
  rfl

theorem run_denyList_of_unchecked (hf : request.configuration.fullTypeCheck = false)
    (names : List String) (host : Host) (disk : Disk) :
    (denyList names).run request host disk = verbatim.run request host disk := by
  cases hfault : request.fault? host with
  | some error => simp only [run, hfault]
  | none =>
    cases hd : host.forgetDirectories.currentDirectory disk with
    | mk answer entered =>
      cases answer with
      | error error => simp only [run, hfault, hd]
      | ok directory =>
        have hd' : (host.forgetDirectories.currentDirectory disk).1 = .ok directory := by rw [hd]
        rw [run_eq_finish hfault hd', run_eq_finish hfault hd', denyList_eq, built_refine]
        exact finish_denying hf names _ _ _ _

end Engine

/-- Of the words of a source, a full check reports those that are on the list, once for each time
that the list holds them, source by source and from left to right. A run tells them between its
early diagnostics, which a full check must not have, and those of its emission. A run without a full
check is the run of the engine without analysis. -/
theorem denied_words_reported (names : List String)
    (hn : ∀ name ∈ names, DenyList.IsName name.toList) :
    (∀ source, (DenyList.words source).Pairwise (·.start < ·.start) ∧
      ∀ word, word ∈ DenyList.words source ↔
        Text.HasRun DenyList.isNameChar source.text.toList word) ∧
    (∀ (host : Host) (disk : Disk) (served : Nat) (roots : List String) (options : Options),
      let program := (host.serve ((Engine.denyList names).build served roots options) disk).answer
      (program.checker true).semantic =
        (program.sources.filter (!·.isDeclaration)).flatMap (DenyList.denied names) ∧
      (program.checker false).semantic = []) ∧
    (∀ (request : Request) (host : Host) (disk : Disk) (directory : String),
      request.fault? host = none →
      (host.forgetDirectories.currentDirectory disk).1 = .ok directory →
      let engine := Engine.denyList names
      let outcome := engine.run request host disk
      let full := request.configuration.fullTypeCheck
      let early := engine.early request host disk
      let sources := (engine.built request host disk).answer.sources
      let denied := (sources.filter (!·.isDeclaration)).flatMap (DenyList.denied names)
      let emission := (engine.emitted request host disk).answer
      let stream := early ++ (if full then denied else []) ++ emission.diagnostics
      ¬ (full = true ∧ early ≠ []) → ∃ compilation, outcome.result = .ok compilation ∧
        compilation.diagnostics = stream.map Diagnostic.render ∧
        Reports.Tells request.callback outcome.reports stream) ∧
    ∀ (request : Request) (host : Host) (disk : Disk),
      request.configuration.fullTypeCheck = false →
        (Engine.denyList names).run request host disk = Engine.verbatim.run request host disk := by
  refine ⟨fun source => ⟨Text.pairwise_runsFrom _ _ _, fun word => ?_⟩,
    fun host disk served roots options => ?_, fun request host disk directory hfault hd => ?_,
    fun request host disk hf => Engine.run_denyList_of_unchecked hf names host disk⟩
  · rw [DenyList.words, Text.mem_runsFrom_iff]
    simp
  · intro program
    have hprogram : program = Engine.denying names
        (host.serve (Engine.verbatim.build served roots options) disk).answer := by
      simp only [program, Engine.denyList_eq, Engine.refine, Host.serve_bind]
      rfl
    rw [hprogram]
    exact ⟨DenyList.inProgram_eq hn _, rfl⟩
  · intro engine outcome full early sources denied emission stream hc
    have hrun : outcome = Engine.finish request (request.commandLine engine host disk).errors
        (engine.built request host disk).answer (engine.built request host disk).host
        (engine.built request host disk).disk := Engine.run_eq_finish hfault hd
    have hbuilt : (engine.built request host disk).answer = Engine.denying names
        (Engine.verbatim.built request host disk).answer :=
      congrArg Host.Served.answer (Engine.built_refine _ _ _ _ _)
    have hsemantic : (if full then ((engine.built request host disk).answer.checker full).semantic
        else []) = if full then denied else [] := by
      cases hfull : full with
      | false => rfl
      | true =>
        simp only [denied, sources, hbuilt, if_true]
        exact DenyList.inProgram_eq hn _
    have hstream : stream = early ++ (if full then
        ((engine.built request host disk).answer.checker full).semantic else []) ++
          emission.diagnostics := by rw [hsemantic]
    rw [Engine.finish_of_not_early request hc] at hrun
    rw [hrun, hstream]
    exact ⟨_, rfl, rfl, (Reports.tells_nil _).forward _⟩

/-- A name that is found inside words, a name that the list holds twice, and a declaration file. -/
theorem denied_words_reported_overlapping :
    let names := ["aa", "b", "aa"]
    let request : Request := {
      sources := [.string "a.ts" "aaa b;aa_ aa", .string "b.d.ts" "declare var b;"]
      arguments := .parsed { options := { noLib := true } } }
    let host : Host := { configuration := {}, read := .strings false, write := .string }
    let outcome := (Engine.denyList names).run request host emptyDisk
    (∀ name ∈ names, DenyList.IsName name.toList) ∧
    ∃ compilation, outcome.result = .ok compilation ∧
      compilation.diagnostics = ["a.ts(1,5): error TS2304: Cannot find name 'b'.",
        "a.ts(1,11): error TS2304: Cannot find name 'aa'.",
        "a.ts(1,11): error TS2304: Cannot find name 'aa'."] := by
  intro names request host outcome
  have hn : ∀ name ∈ names, DenyList.IsName name.toList := by decide +kernel
  have hfault : request.fault? host = none := by decide +kernel
  have hd : (host.forgetDirectories.currentDirectory emptyDisk).1 = .ok "" := by decide +kernel
  have he : (Engine.denyList names).early request host emptyDisk = [] := by decide +kernel
  obtain ⟨-, -, hruns, -⟩ := denied_words_reported names hn
  obtain ⟨compilation, hresult, hdiagnostics, -⟩ :=
    hruns request host emptyDisk "" hfault hd fun h => h.2 he
  exact ⟨hn, compilation, hresult, hdiagnostics.trans (by decide +kernel)⟩

end ScriptHost
