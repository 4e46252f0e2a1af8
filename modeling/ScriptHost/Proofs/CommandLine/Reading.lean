import Mathlib.Data.List.Induction
import ScriptHost.Proofs.CommandLine.Change

/-! Tokens are read one after another: what each of them changes depends on the tokens before it
only through the option that waits for its value. -/

namespace ScriptHost.CommandLine

variable {token name : String} {tokens xs ys : List String} {start pending : Option Pending}
  {change : Change} {option : ValueOption}

/-- The option that a token makes wait for its value. -/
def opened? (token : String) : Option Pending :=
  match optionName? token with
  | none => none
  | some name =>
    match OptionKind.named name with
    | .value option => some ⟨option, name⟩
    | _ => none

/-- The option that waits for its value once a token has been read. An empty token is no value. -/
def pendingAfter (pending : Option Pending) (token : String) : Option Pending :=
  if token = "" then pending
  else
    match pending with
    | some _ => none
    | none => opened? token

/-- The option that tokens end in without the value that it waits for. -/
def pending? (tokens : List String) : Option Pending := tokens.foldl pendingAfter none

/-- What the name of an option changes. An option with a value waits for it. -/
def optionChanges (name : String) : List Change :=
  match OptionKind.named name with
  | .value _ => []
  | .switch option => [.turnOn option]
  | .unknown => [.report (unknownOption name)]

/-- What a token changes that no option takes and that asks for no response file. -/
def ownChanges (token : String) : List Change :=
  match optionName? token with
  | none => [.addFile token]
  | some name => optionChanges name

/-- What a token changes where no option is waiting. `response` has the changes that the name of a
response file stands for, if it stands for any. -/
def freeChanges (response : String → Option (List Change)) (token : String) : List Change :=
  match (responseName? token).bind response with
  | some changes => changes
  | none => ownChanges token

/-- What a token changes. -/
def changesOf (response : String → Option (List Change)) (pending : Option Pending)
    (token : String) : List Change :=
  if token = "" then []
  else
    match pending with
    | some pending => [.setValue pending.option (some token)]
    | none => freeChanges response token

/-- What tokens change one after another. -/
def changesUpTo (response : String → Option (List Change)) :
    Option Pending → List String → List Change
  | _, [] => []
  | pending, token :: tokens =>
    changesOf response pending token ++ changesUpTo response (pendingAfter pending token) tokens

/-- What is changed when no token is left: an option that is still waiting has no value. -/
def missed : Option Pending → List Change
  | none => []
  | some pending => [.setValue pending.option none, .report (missingValue pending.name)]

/-- What tokens change in all. -/
def changesFrom (response : String → Option (List Change)) (pending : Option Pending)
    (tokens : List String) : List Change :=
  changesUpTo response pending tokens ++ missed (tokens.foldl pendingAfter pending)

/-- What tokens change that do not ask for response files. -/
def plainChanges (tokens : List String) : List Change := changesFrom (fun _ => none) none tokens

/-- What the name of a response file stands for. -/
def responseChanges (files : ResponseFiles) (name : String) : List Change :=
  match files name with
  | some text => plainChanges (ResponseFile.tokens text)
  | none => [.report (unreadable name)]

/-- The response files of a command line: each name stands for something. -/
def answering (files : ResponseFiles) (name : String) : Option (List Change) :=
  some (responseChanges files name)

/-- What the tokens of a command line change. -/
def changes (files : ResponseFiles) (tokens : List String) : List Change :=
  changesFrom (answering files) none tokens

section Step

variable {response : String → Option (List Change)} {waiting : Pending}

@[simp] theorem pendingAfter_empty : pendingAfter pending "" = pending := if_pos rfl

theorem pendingAfter_some (h : token ≠ "") : pendingAfter (some waiting) token = none := if_neg h

theorem pendingAfter_none (h : token ≠ "") : pendingAfter none token = opened? token := if_neg h

@[simp] theorem changesOf_empty : changesOf response pending "" = [] := if_pos rfl

theorem changesOf_some (h : token ≠ "") :
    changesOf response (some waiting) token = [.setValue waiting.option (some token)] := if_neg h

theorem changesOf_none (h : token ≠ "") :
    changesOf response none token = freeChanges response token := if_neg h

theorem pending?_append : pending? (xs ++ ys) = ys.foldl pendingAfter (pending? xs) :=
  List.foldl_append

end Step

theorem mem_responseChanges_iff {files : ResponseFiles} : change ∈ responseChanges files name ↔
    (∃ text, files name = some text ∧ change ∈ plainChanges (ResponseFile.tokens text)) ∨
      files name = none ∧ change = .report (unreadable name) := by
  rw [responseChanges]
  cases files name <;> simp

theorem responseName?_eq_some_iff : responseName? token = some name ↔ token = "@" ++ name := by
  rw [responseName?]
  constructor
  · intro h
    split at h
    · next rest hc =>
      obtain rfl := Option.some.inj h
      apply String.toList_injective
      simp [hc]
    · cases h
  · rintro rfl
    simp

theorem optionName?_of_responseName? (h : responseName? token = some name) :
    optionName? token = none := by
  rw [responseName?] at h
  rw [optionName?]
  split at h
  · next hc => rw [hc]; rfl
  · cases h

theorem opened?_of_responseName? (h : responseName? token = some name) : opened? token = none := by
  rw [opened?, optionName?_of_responseName? h]

section Reading

variable {expand : String → CommandLine → Option CommandLine}
  {response : String → Option (List Change)} {line : CommandLine}

/-- Reads tokens, none of them empty, where an option may be waiting for its value. -/
def resume (expand : String → CommandLine → Option CommandLine) :
    Option Pending → List String → CommandLine → CommandLine
  | none, tokens, line => readTokens expand tokens line
  | some pending, [], line => line.setMissing pending.option pending.name
  | some pending, value :: tokens, line =>
    readTokens expand tokens (line.apply (.setValue pending.option (some value)))

theorem resume_nil : resume expand pending [] line = line.applyAll (missed pending) := by
  cases pending <;> rfl

theorem resume_step
    (h : ∀ token line, expand token line = ((responseName? token).bind response).map line.applyAll)
    (hn : token ≠ "") : resume expand pending (token :: tokens) line =
      resume expand (pendingAfter pending token) tokens
        (line.applyAll (changesOf response pending token)) := by
  cases pending with
  | some pending =>
    rw [pendingAfter_some hn, changesOf_some hn]
    rfl
  | none =>
    rw [pendingAfter_none hn, changesOf_none hn, resume, readTokens, h, freeChanges]
    cases hr : (responseName? token).bind response with
    | some changes =>
      obtain ⟨name, hname, -⟩ := Option.bind_eq_some_iff.1 hr
      simp only [opened?_of_responseName? hname]
      rfl
    | none =>
      simp only [opened?, ownChanges]
      cases optionName? token with
      | none => rfl
      | some name =>
        simp only [optionChanges]
        cases OptionKind.named name with
        -- Reading looks ahead for the value, and a waiting option looks back.
        | value option => cases tokens <;> rfl
        | _ => rfl

/-- Reading tokens makes their changes, whatever is done about response files. -/
theorem resume_eq_applyAll
    (h : ∀ token line, expand token line = ((responseName? token).bind response).map line.applyAll)
    (pending : Option Pending) (tokens : List String) (line : CommandLine) :
    resume expand pending (tokens.filter (· != "")) line =
      line.applyAll (changesFrom response pending tokens) := by
  induction tokens generalizing pending line with
  | nil => exact resume_nil
  | cons token tokens ih =>
    by_cases hn : token = ""
    · rw [List.filter_cons_of_neg (by simpa using hn), ih, changesFrom, changesFrom, changesUpTo, hn,
        List.foldl_cons, changesOf_empty, pendingAfter_empty, List.nil_append]
    · rw [List.filter_cons_of_pos (by simpa using hn), resume_step h hn, ih, changesFrom, changesFrom,
        changesUpTo, List.foldl_cons, List.append_assoc, ← applyAll_append]

end Reading

theorem readPlain_eq_applyAll (line : CommandLine) (tokens : List String) :
    readPlain tokens line = line.applyAll (plainChanges tokens) := by
  refine resume_eq_applyAll (fun token line => ?_) none tokens line
  cases responseName? token <;> rfl

theorem readResponse_eq_applyAll (files : ResponseFiles) (name : String) (line : CommandLine) :
    readResponse files name line = line.applyAll (responseChanges files name) := by
  rw [readResponse, responseChanges]
  cases files name with
  | some text => exact readPlain_eq_applyAll line _
  | none => rfl

/-- A command line is what the changes of its tokens make of an empty one. -/
theorem parse_eq_applyAll (files : ResponseFiles) (tokens : List String) :
    parse files tokens = ({} : CommandLine).applyAll (changes files tokens) := by
  refine resume_eq_applyAll (fun token line => ?_) none tokens {}
  rw [expandResponse]
  cases responseName? token with
  | none => rfl
  | some name => exact congrArg some (readResponse_eq_applyAll files name line)

section Append

variable {response : String → Option (List Change)} {line : CommandLine} {waiting : Pending}
  {value : String}

theorem foldl_pendingAfter_of_empty (h : ∀ token ∈ tokens, token = "") :
    tokens.foldl pendingAfter pending = pending := by
  induction tokens with
  | nil => rfl
  | cons token tokens ih =>
    obtain ⟨rfl, hrest⟩ := List.forall_mem_cons.1 h
    rw [List.foldl_cons, pendingAfter_empty, ih hrest]

theorem changesUpTo_of_empty (h : ∀ token ∈ tokens, token = "") :
    changesUpTo response pending tokens = [] := by
  induction tokens with
  | nil => rfl
  | cons token tokens ih =>
    obtain ⟨rfl, hrest⟩ := List.forall_mem_cons.1 h
    rw [changesUpTo, changesOf_empty, pendingAfter_empty, ih hrest, List.nil_append]

theorem changesUpTo_append : changesUpTo response pending (xs ++ ys) =
    changesUpTo response pending xs ++
      changesUpTo response (xs.foldl pendingAfter pending) ys := by
  induction xs generalizing pending with
  | nil => rfl
  | cons token xs ih =>
    rw [List.cons_append, changesUpTo, ih, changesUpTo, List.append_assoc, List.foldl_cons]

theorem changesFrom_append : changesFrom response pending (xs ++ ys) =
    changesUpTo response pending xs ++
      changesFrom response (xs.foldl pendingAfter pending) ys := by
  rw [changesFrom, changesUpTo_append, List.foldl_append, List.append_assoc, changesFrom]

/-- Tokens behind others change what they change alone, unless an option is waiting for them. -/
theorem changesFrom_append_of_not_pending (h : pending? xs = none) :
    changesFrom response none (xs ++ ys) =
      changesFrom response none xs ++ changesFrom response none ys := by
  have hx : changesFrom response none xs = changesUpTo response none xs := by
    rw [changesFrom, ← pending?, h]
    exact List.append_nil _
  rw [changesFrom_append, ← pending?, h, hx]

/-- A command line with a value for the option that tokens left waiting, and no word about it. -/
def taking (line : CommandLine) (waiting : Pending) (value : String) : CommandLine :=
  { line with
    options := line.options.setValue (some value) waiting.option, errors := line.errors.dropLast }

theorem changesFrom_of_pending (h : pending? xs = some waiting) :
    changesFrom response none xs = changesUpTo response none xs ++
      [.setValue waiting.option none, .report (missingValue waiting.name)] := by
  rw [changesFrom, ← pending?, h, missed]

theorem changesFrom_append_of_empty (h : pending? xs = some waiting)
    (he : ∀ token ∈ ys, token = "") :
    changesFrom response none (xs ++ ys) = changesFrom response none xs := by
  rw [changesFrom_append, ← pending?, h, changesFrom_of_pending h, changesFrom,
    changesUpTo_of_empty he, foldl_pendingAfter_of_empty he]
  rfl

/-- An option that is left waiting takes the next token that is not empty. -/
theorem applyAll_append_of_value {blanks rest : List String} (h : pending? xs = some waiting)
    (hb : ∀ token ∈ blanks, token = "") (hv : value ≠ "") :
    line.applyAll (changesFrom response none (xs ++ (blanks ++ value :: rest))) =
      ((line.applyAll (changesFrom response none xs)).taking waiting value).applyAll
        (changesFrom response none rest) := by
  have hrest : changesFrom response (some waiting) (value :: rest) =
      .setValue waiting.option (some value) :: changesFrom response none rest := by
    rw [changesFrom, changesUpTo, List.foldl_cons, pendingAfter_some hv, changesOf_some hv,
      List.append_assoc, ← changesFrom, List.singleton_append]
  have htake : (line.applyAll (changesFrom response none xs)).taking waiting value =
      (line.applyAll (changesUpTo response none xs)).apply
        (.setValue waiting.option (some value)) := by
    rw [changesFrom_of_pending h, applyAll_append]
    simp [taking, apply]
  rw [changesFrom_append, ← pending?, h, changesFrom_append, changesUpTo_of_empty hb,
    foldl_pendingAfter_of_empty hb, List.nil_append, hrest, applyAll_append, applyAll_cons, htake]

end Append

/-- Whether a token stands among others where `pending` is the option that waits. -/
def Meets (tokens : List String) (pending : Option Pending) (token : String) : Prop :=
  ∃ before after, tokens = before ++ token :: after ∧ pending? before = pending

/-- How tokens come to make a change: an option takes a token, a token asks for a response file, a
token has an effect of its own, or an option gets no value. -/
inductive Makes (response : String → Option (List Change)) (tokens : List String) : Change → Prop
  | value {waiting : Pending} {token : String} (hm : Meets tokens (some waiting) token)
      (hn : token ≠ "") : Makes response tokens (.setValue waiting.option (some token))
  | response {name : String} {changes : List Change} {change : Change}
      (hm : Meets tokens none ("@" ++ name)) (hr : response name = some changes)
      (hc : change ∈ changes) : Makes response tokens change
  | own {token : String} {change : Change} (hm : Meets tokens none token) (hn : token ≠ "")
      (hr : (responseName? token).bind response = none) (hc : change ∈ ownChanges token) :
      Makes response tokens change
  | missing {waiting : Pending} {change : Change} (hp : pending? tokens = some waiting)
      (hc : change ∈ missed (some waiting)) : Makes response tokens change

section Position

variable {response : String → Option (List Change)}

theorem mem_changesUpTo_iff : change ∈ changesUpTo response start tokens ↔
    ∃ before token after, tokens = before ++ token :: after ∧
      change ∈ changesOf response (before.foldl pendingAfter start) token := by
  constructor
  · intro h
    induction tokens generalizing start with
    | nil => simp [changesUpTo] at h
    | cons token tokens ih =>
      rcases List.mem_append.1 h with hc | hc
      · exact ⟨[], token, tokens, rfl, hc⟩
      · obtain ⟨before, later, after, rfl, hm⟩ := ih hc
        exact ⟨token :: before, later, after, rfl, hm⟩
  · rintro ⟨before, token, after, rfl, hc⟩
    rw [changesUpTo_append, changesUpTo]
    exact List.mem_append_right _ (List.mem_append_left _ hc)

theorem makes_of_changesOf (hm : Meets tokens pending token)
    (hc : change ∈ changesOf response pending token) : Makes response tokens change := by
  by_cases hn : token = ""
  · rw [hn, changesOf_empty] at hc
    cases hc
  · cases pending with
    | some waiting =>
      rw [changesOf_some hn] at hc
      obtain rfl := List.mem_singleton.1 hc
      exact .value hm hn
    | none =>
      rw [changesOf_none hn, freeChanges] at hc
      cases hr : (responseName? token).bind response with
      | none =>
        rw [hr] at hc
        exact .own hm hn hr hc
      | some changes =>
        rw [hr] at hc
        obtain ⟨name, hname, hchanges⟩ := Option.bind_eq_some_iff.1 hr
        obtain rfl := responseName?_eq_some_iff.1 hname
        exact .response hm hchanges hc

theorem changesOf_of_meets (hm : Meets tokens pending token)
    (hc : change ∈ changesOf response pending token) :
    change ∈ changesFrom response none tokens := by
  obtain ⟨before, after, hsplit, rfl⟩ := hm
  exact List.mem_append_left _ (mem_changesUpTo_iff.2 ⟨before, token, after, hsplit, hc⟩)

/-- What tokens change is what they come to make. -/
theorem mem_changesFrom_iff :
    change ∈ changesFrom response none tokens ↔ Makes response tokens change := by
  constructor
  · intro h
    rcases List.mem_append.1 h with h | h
    · obtain ⟨before, token, after, hsplit, hc⟩ := mem_changesUpTo_iff.1 h
      exact makes_of_changesOf ⟨before, after, hsplit, rfl⟩ hc
    · rw [← pending?] at h
      cases hp : pending? tokens with
      | none =>
        rw [hp] at h
        cases h
      | some waiting => exact .missing hp (hp ▸ h)
  · intro h
    cases h with
    | @value waiting token hm hn =>
      apply changesOf_of_meets hm
      rw [changesOf_some hn]
      exact List.mem_singleton_self _
    | @response name changes change hm hr hc =>
      apply changesOf_of_meets hm
      have hn : "@" ++ name ≠ "" := by simp
      have hname : responseName? ("@" ++ name) = some name := responseName?_eq_some_iff.2 rfl
      rw [changesOf_none hn, freeChanges, hname, Option.bind_some, hr]
      exact hc
    | own hm hn hr hc =>
      apply changesOf_of_meets hm
      rw [changesOf_none hn, freeChanges, hr]
      exact hc
    | missing hp hc =>
      apply List.mem_append_right
      rwa [← pending?, hp]

/-- An option is left waiting where only empty tokens stand behind it. -/
theorem pending?_eq_some_iff {waiting : Pending} : pending? tokens = some waiting ↔
    ∃ before flag after, tokens = before ++ flag :: after ∧ pending? before = none ∧
      opened? flag = some waiting ∧ ∀ token ∈ after, token = "" := by
  constructor
  · intro h
    -- From the end: the last token that is not empty has opened the option.
    induction tokens using List.reverseRecOn with
    | nil => cases h
    | append_singleton tokens token ih =>
      rw [pending?_append, List.foldl_cons, List.foldl_nil] at h
      by_cases hn : token = ""
      · rw [hn, pendingAfter_empty] at h
        obtain ⟨before, flag, after, rfl, hb, ho, ha⟩ := ih h
        refine ⟨before, flag, after ++ [token], by simp, hb, ho, ?_⟩
        rintro other hm
        rcases List.mem_append.1 hm with hm | hm
        · exact ha other hm
        · exact (List.mem_singleton.1 hm).trans hn
      · cases hp : pending? tokens with
        | some earlier =>
          rw [hp, pendingAfter_some hn] at h
          cases h
        | none =>
          rw [hp, pendingAfter_none hn] at h
          exact ⟨tokens, token, [], rfl, hp, h, by simp⟩
  · rintro ⟨before, flag, after, rfl, hb, ho, ha⟩
    have hn : flag ≠ "" := by
      rintro rfl
      simp [opened?, optionName?] at ho
    rw [pending?_append, List.foldl_cons, foldl_pendingAfter_of_empty ha, hb, pendingAfter_none hn, ho]

theorem exists_first_nonempty (h : ¬ ∀ token ∈ tokens, token = "") :
    ∃ blanks value rest, tokens = blanks ++ value :: rest ∧
      (∀ token ∈ blanks, token = "") ∧ value ≠ "" := by
  induction tokens with
  | nil => simp at h
  | cons token tokens ih =>
    by_cases hn : token = ""
    · obtain ⟨blanks, value, rest, rfl, hb, hv⟩ := ih fun hall =>
        h (List.forall_mem_cons.2 ⟨hn, hall⟩)
      exact ⟨token :: blanks, value, rest, rfl, by simpa [hn] using hb, hv⟩
    · exact ⟨[], token, tokens, rfl, by simp, hn⟩

end Position

end ScriptHost.CommandLine
