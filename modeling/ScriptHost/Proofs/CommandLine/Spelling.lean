import Mathlib.Data.List.Forall2
import ScriptHost.Proofs.CommandLine.Composition

/-! How an option is spelled makes no difference to a command line: neither the number of dashes nor
the case of its name. File names and values are taken as they are. -/

namespace ScriptHost

/-- Whether two names are the same but for the case of letters from `A` to `Z`. -/
def SameName (name other : String) : Prop :=
  name.toList.map lowerLetter = other.toList.map lowerLetter

instance (name other : String) : Decidable (SameName name other) :=
  inferInstanceAs (Decidable (_ = _))

theorem OptionKind.named_congr {name other : String} (h : SameName name other) :
    named name = named other := by
  rw [named.eq_def, named.eq_def, h]

namespace CommandLine

/-- Whether two diagnostics are the same but for the case of the option's name in them. -/
inductive SameFault : Diagnostic → Diagnostic → Prop
  | same (fault : Diagnostic) : SameFault fault fault
  | unknown {name other : String} (h : SameName name other) :
      SameFault (unknownOption name) (unknownOption other)
  | missing {name other : String} (h : SameName name other) :
      SameFault (missingValue name) (missingValue other)

/-- Whether two command lines are the same but for the case of names in their diagnostics. -/
structure Alike (line other : CommandLine) : Prop where
  options : other.options = line.options
  fileNames : other.fileNames = line.fileNames
  errors : List.Forall₂ SameFault line.errors other.errors

/-- Whether a token is a name behind one or two dashes. -/
def Spells (token name : String) : Prop :=
  (token = "-" ++ name ∨ token = "--" ++ name) ∧ name ≠ "" ∧ name.toList.head? ≠ some '-'

/-- Whether two tokens spell the same name. -/
def SpellAlike (token other : String) : Prop :=
  ∃ name otherName, Spells token name ∧ Spells other otherName ∧ SameName name otherName

/-- Whether tokens differ from others only where no option is waiting for a value, and there only in
how they spell a name. -/
structure Respelled (tokens others : List String) : Prop where
  length : others.length = tokens.length
  spelled (i : Nat) (token other : String) (ht : tokens[i]? = some token)
    (ho : others[i]? = some other) (hne : token ≠ other) :
    pending? (tokens.take i) = none ∧ SpellAlike token other

/-- Whether two changes are the same but for the case of names in their diagnostics. -/
inductive SameChange : Change → Change → Prop
  | same (change : Change) : SameChange change change
  | report {fault other : Diagnostic} (h : SameFault fault other) :
      SameChange (.report fault) (.report other)

/-- Whether the same option is waiting, by a name in whatever case. -/
def SamePending (pending other : Pending) : Prop :=
  pending.option = other.option ∧ SameName pending.name other.name

variable {token other name : String} {tokens others : List String} {start otherStart : Option Pending}
  {response : String → Option (List Change)} {changes more : List Change} {line second : CommandLine}

theorem Spells.optionName? (h : Spells token name) : optionName? token = some name := by
  obtain ⟨hd, hn, hh⟩ := h
  have hlist : name.toList ≠ [] := by simpa using hn
  obtain ⟨c, cs, hc⟩ := List.exists_cons_of_ne_nil hlist
  have hne : c ≠ '-' := by
    rintro rfl
    simp [hc] at hh
  have hname : String.ofList (c :: cs) = name := by rw [← hc, String.ofList_toList]
  rcases hd with rfl | rfl <;> simp [CommandLine.optionName?, hc, hne, hname]

theorem Spells.responseName? (h : Spells token name) : responseName? token = none := by
  rcases h.1 with rfl | rfl <;> simp [CommandLine.responseName?]

theorem Spells.ne_empty (h : Spells token name) : token ≠ "" := by
  rcases h.1 with rfl | rfl <;> simp

theorem SameChange.forall₂_refl (changes : List Change) : List.Forall₂ SameChange changes changes :=
  List.forall₂_same.2 fun change _ => .same change

/-- What a token changes and leaves waiting, in two spellings. -/
theorem sameChange_step (response : String → Option (List Change))
    (hp : Option.Rel SamePending start otherStart)
    (ht : token = other ∨ start = none ∧ SpellAlike token other) :
    List.Forall₂ SameChange (changesOf response start token) (changesOf response otherStart other) ∧
      Option.Rel SamePending (pendingAfter start token) (pendingAfter otherStart other) := by
  rcases ht with rfl | ⟨rfl, name, otherName, hname, hother, hsame⟩
  · by_cases hn : token = ""
    · rw [hn, changesOf_empty, changesOf_empty, pendingAfter_empty, pendingAfter_empty]
      exact ⟨.nil, hp⟩
    · cases hp with
      | none =>
        refine ⟨SameChange.forall₂_refl _, ?_⟩
        rw [pendingAfter_none hn]
        cases opened? token with
        | none => exact .none
        | some waiting => exact .some ⟨rfl, rfl⟩
      | some hw =>
        -- The value is the same, and only the name that its option was given by may differ.
        obtain ⟨ho, -⟩ := hw
        rw [changesOf_some hn, changesOf_some hn, pendingAfter_some hn, pendingAfter_some hn, ho]
        exact ⟨SameChange.forall₂_refl _, .none⟩
  · cases hp
    have hkind : OptionKind.named name = OptionKind.named otherName := OptionKind.named_congr hsame
    rw [changesOf_none hname.ne_empty, changesOf_none hother.ne_empty,
      pendingAfter_none hname.ne_empty, pendingAfter_none hother.ne_empty]
    simp only [freeChanges, ownChanges, opened?, hname.responseName?, hother.responseName?,
      Option.bind_none, hname.optionName?, hother.optionName?, optionChanges, ← hkind]
    cases OptionKind.named name with
    | value option => exact ⟨.nil, .some ⟨rfl, hsame⟩⟩
    | switch option => exact ⟨SameChange.forall₂_refl _, .none⟩
    | unknown => exact ⟨.cons (.report (.unknown hsame)) .nil, .none⟩

/-- What tokens change and leave waiting, in two spellings. -/
theorem sameChange_run (response : String → Option (List Change))
    (hp : Option.Rel SamePending start otherStart)
    (hl : others.length = tokens.length)
    (h : ∀ i token other, tokens[i]? = some token → others[i]? = some other → token ≠ other →
      (tokens.take i).foldl pendingAfter start = none ∧ SpellAlike token other) :
    List.Forall₂ SameChange (changesUpTo response start tokens)
        (changesUpTo response otherStart others) ∧
      Option.Rel SamePending (tokens.foldl pendingAfter start)
        (others.foldl pendingAfter otherStart) := by
  induction tokens generalizing others start otherStart with
  | nil =>
    obtain rfl := List.length_eq_zero_iff.1 hl
    exact ⟨.nil, hp⟩
  | cons token tokens ih =>
    cases others with
    | nil => simp at hl
    | cons other others =>
      have hhead : token = other ∨ start = none ∧ SpellAlike token other := by
        by_cases he : token = other
        · exact .inl he
        · exact .inr (h 0 token other rfl rfl he)
      obtain ⟨hc, hafter⟩ := sameChange_step response hp hhead
      obtain ⟨hrest, hend⟩ := ih hafter (Nat.succ.inj hl) fun i first second hf hs hne => by
        simpa using h (i + 1) first second hf hs hne
      exact ⟨List.rel_append hc hrest, hend⟩

theorem sameChange_missed (hp : Option.Rel SamePending start otherStart) :
    List.Forall₂ SameChange (missed start) (missed otherStart) := by
  cases hp with
  | none => exact .nil
  | some hw =>
    obtain ⟨ho, hn⟩ := hw
    rw [missed, missed, ho]
    exact .cons (.same _) (.cons (.report (.missing hn)) .nil)

theorem Respelled.sameChange (h : Respelled tokens others) :
    List.Forall₂ SameChange (changesFrom response none tokens)
      (changesFrom response none others) := by
  obtain ⟨hc, hp⟩ := sameChange_run response .none h.length h.spelled
  exact List.rel_append hc (sameChange_missed hp)

theorem Alike.apply {change more : Change} (h : Alike line second) (hc : SameChange change more) :
    Alike (line.apply change) (second.apply more) := by
  obtain ⟨ho, hf, he⟩ := h
  cases hc with
  | same =>
    cases change with
    | setValue option value => exact ⟨by simp [CommandLine.apply, ho], hf, he⟩
    | turnOn option => exact ⟨by simp [CommandLine.apply, ho], hf, he⟩
    | addFile name => exact ⟨ho, by simp [CommandLine.apply, hf], he⟩
    | report fault => exact ⟨ho, hf, List.rel_append he (.cons (.same fault) .nil)⟩
  | report hs => exact ⟨ho, hf, List.rel_append he (.cons hs .nil)⟩

theorem Alike.applyAll (h : Alike line second) (hc : List.Forall₂ SameChange changes more) :
    Alike (line.applyAll changes) (second.applyAll more) := by
  induction hc generalizing line second with
  | nil => exact h
  | cons hhead htail ih => exact ih (h.apply hhead)

/-- Whether a token stands among others as the name of a file. -/
def NamesFile (tokens : List String) (name : String) : Prop :=
  Meets tokens none name ∧ name ≠ "" ∧ optionName? name = none

theorem addFile_mem_ownChanges_iff :
    .addFile name ∈ ownChanges token ↔ name = token ∧ optionName? token = none := by
  rw [ownChanges]
  cases hn : CommandLine.optionName? token with
  | none => simp
  | some option =>
    simp only [optionChanges]
    split <;> simp

/-- A file is named by a token in its place, or in a response file. -/
theorem addFile_mem_changesFrom_iff : .addFile name ∈ changesFrom response none tokens ↔
    (NamesFile tokens name ∧ (responseName? name).bind response = none) ∨
      ∃ file changes, Meets tokens none ("@" ++ file) ∧ response file = some changes ∧
        .addFile name ∈ changes := by
  rw [mem_changesFrom_iff]
  constructor
  · intro h
    cases h with
    | response hm hr hc => exact .inr ⟨_, _, hm, hr, hc⟩
    | own hm hn hr hc =>
      obtain ⟨rfl, ho⟩ := addFile_mem_ownChanges_iff.1 hc
      exact .inl ⟨⟨hm, hn, ho⟩, hr⟩
    | missing hp hc => simp [missed] at hc
  · rintro (⟨⟨hm, hn, ho⟩, hr⟩ | ⟨file, changes, hm, hr, hc⟩)
    · exact .own hm hn hr (addFile_mem_ownChanges_iff.2 ⟨rfl, ho⟩)
    · exact .response hm hr hc

theorem mem_fileNames_iff {files : ResponseFiles} : name ∈ (parse files tokens).fileNames ↔
    (NamesFile tokens name ∧ responseName? name = none) ∨
      ∃ file text, Meets tokens none ("@" ++ file) ∧ files file = some text ∧
        NamesFile (ResponseFile.tokens text) name := by
  have hmem : name ∈ (parse files tokens).fileNames ↔
      .addFile name ∈ changesFrom (answering files) none tokens := by
    rw [parse_eq_applyAll, fileNames_applyAll, List.nil_append]
    exact Change.mem_filterMap_file?_iff
  have hplain (part : List String) : .addFile name ∈ plainChanges part ↔ NamesFile part name := by
    rw [plainChanges, addFile_mem_changesFrom_iff]
    simp
  rw [hmem, addFile_mem_changesFrom_iff]
  refine or_congr (and_congr_right fun _ => ?_) (exists_congr fun file => ?_)
  · cases CommandLine.responseName? name <;> simp [answering]
  · constructor
    · rintro ⟨changes, hm, hr, hc⟩
      obtain rfl := Option.some.inj hr
      rcases mem_responseChanges_iff.1 hc with ⟨text, ht, hc⟩ | ⟨-, hc⟩
      · exact ⟨text, hm, ht, (hplain _).1 hc⟩
      · cases hc
    · rintro ⟨text, hm, ht, hn⟩
      exact ⟨_, hm, rfl, mem_responseChanges_iff.2 (.inl ⟨text, ht, (hplain _).2 hn⟩)⟩

/-- A value is a token that its option takes. -/
theorem Makes.meets {option : ValueOption} {value : String}
    (h : Makes (fun _ => none) tokens (.setValue option (some value))) :
    ∃ label, Meets tokens (some ⟨option, label⟩) value := by
  cases h with
  | @value waiting _ hm hn => exact ⟨waiting.name, hm⟩
  | response hm hr hc => cases hr
  | own hm hn hr hc => exact absurd hc setValue_not_mem_ownChanges
  | missing hp hc => simp [missed] at hc

theorem exists_part_of_valueOf {files : ResponseFiles} {option : ValueOption} {value : String}
    (h : (parse files tokens).options.valueOf option = some value) :
    ∃ part label, Part files tokens part ∧ Meets part (some ⟨option, label⟩) value := by
  have hv : .setValue option (some value) ∈ CommandLine.changes files tokens := by
    rw [parse_eq_applyAll, valueOf_applyAll, Options.valueOf_default] at h
    apply Change.mem_filterMap_value?_iff.1
    cases hl : ((CommandLine.changes files tokens).filterMap (Change.value? option)).getLast? with
    | none => simp [hl] at h
    | some last =>
      obtain rfl : last = some value := by simpa [hl] using h
      exact List.mem_of_getLast? hl
  rcases makes_of_mem hv with ⟨part, hp, hm⟩ | ⟨name, hname⟩
  · obtain ⟨label, hmeets⟩ := hm.meets
    exact ⟨part, label, hp, hmeets⟩
  · cases hname

theorem SameFault.map_code {faults more : List Diagnostic} (h : List.Forall₂ SameFault faults more) :
    more.map Diagnostic.code = faults.map Diagnostic.code := by
  induction h with
  | nil => rfl
  | cons hfault _ ih =>
    rw [List.map_cons, List.map_cons, ih]
    cases hfault <;> rfl

/-- Tokens where an option may stand can be spelled with one dash or two, and their names in any
case. The options and the files of the command line stay the same, and its diagnostics stay the same
but for the case of names in them. Files are named exactly by the tokens in their place, letter by
letter, and each value is a token that stands behind its option. -/
theorem spelling_makes_no_difference (files : ResponseFiles) (h : Respelled tokens others) :
    let line := parse files tokens
    Alike line (parse files others) ∧
    (parse files others).errors.map Diagnostic.code = line.errors.map Diagnostic.code ∧
    (∀ name, name ∈ line.fileNames ↔ (NamesFile tokens name ∧ responseName? name = none) ∨
      ∃ file text, Meets tokens none ("@" ++ file) ∧ files file = some text ∧
        NamesFile (ResponseFile.tokens text) name) ∧
    ∀ option value, line.options.valueOf option = some value →
      ∃ part label, Part files tokens part ∧ Meets part (some ⟨option, label⟩) value := by
  intro line
  have hstart : Alike {} {} := ⟨rfl, rfl, .nil⟩
  have halike : Alike line (parse files others) := by
    rw [show line = parse files tokens from rfl, parse_eq_applyAll, parse_eq_applyAll]
    exact hstart.applyAll h.sameChange
  exact ⟨halike, SameFault.map_code halike.errors, fun name => mem_fileNames_iff,
    fun option value => exists_part_of_valueOf⟩

theorem spelling_makes_no_difference_mixed :
    let line := parse (fun _ => none) ["--Bogus", "X.ts", "-T", "--Out", "-OUT"]
    let other := parse (fun _ => none) ["-bogus", "X.ts", "--t", "--Out", "--out"]
    Alike line other ∧ line.errors = [unknownOption "Bogus", missingValue "OUT"] ∧
    other.options.target = some "--Out" ∧ other.fileNames = ["X.ts"] := by
  intro line other
  have hbogus : SpellAlike "--Bogus" "-bogus" := ⟨"Bogus", "bogus",
    ⟨.inr (by decide), by decide, by decide⟩, ⟨.inl (by decide), by decide, by decide⟩, by decide⟩
  have htarget : SpellAlike "-T" "--t" := ⟨"T", "t",
    ⟨.inl (by decide), by decide, by decide⟩, ⟨.inr (by decide), by decide, by decide⟩, by decide⟩
  have hout : SpellAlike "-OUT" "--out" := ⟨"OUT", "out",
    ⟨.inl (by decide), by decide, by decide⟩, ⟨.inr (by decide), by decide, by decide⟩, by decide⟩
  have h : Respelled ["--Bogus", "X.ts", "-T", "--Out", "-OUT"]
      ["-bogus", "X.ts", "--t", "--Out", "--out"] := by
    refine ⟨rfl, ?_⟩
    rintro (_ | _ | _ | _ | _ | i) token other ht ho hne
    · cases ht
      cases ho
      exact ⟨rfl, hbogus⟩
    · cases ht
      cases ho
      exact absurd rfl hne
    · cases ht
      cases ho
      exact ⟨by decide +kernel, htarget⟩
    · cases ht
      cases ho
      exact absurd rfl hne
    · cases ht
      cases ho
      exact ⟨by decide +kernel, hout⟩
    · cases ht
  obtain ⟨halike, -⟩ := spelling_makes_no_difference (fun _ => none) h
  exact ⟨halike, by decide +kernel, (congrArg Options.target halike.options).trans (by decide +kernel),
    halike.fileNames.trans (by decide +kernel)⟩

end CommandLine

end ScriptHost
