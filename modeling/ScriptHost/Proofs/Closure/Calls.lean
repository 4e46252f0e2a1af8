import Mathlib.Algebra.Order.BigOperators.Group.List
import Mathlib.Logic.Function.Iterate
import ScriptHost.Proofs.Closure.Serve

/-! Following references call by call, with no bound on how deep the calls may nest. They end, on
every set of sources, in the closure that visits of bounded depth build. Only a text takes a call
deeper, and the texts that are open at one moment have different names. -/

namespace ScriptHost

theorem Closure.length_starts_le (options : Options) (roots : List String) :
    (starts options roots).length ≤ 1 + roots.length := by
  unfold starts
  cases options.noLib <;> cases options.defaultLibrary <;> simp +arith

/-- A program whose references are being followed: what the innermost open source still asks for,
and the open sources, innermost first, each with what is asked for once it is complete. -/
structure Following where
  left : List Demand
  opened : List (SourceText × List Demand) := []
  closure : Closure := {}
  /-- How often a name has been asked for. -/
  calls : Nat := 0
  deriving DecidableEq

namespace Following

/-- A program before its library and its roots have been asked for. -/
def start (options : Options) (roots : List String) : Following :=
  { left := Closure.startDemands options roots }

/-- The names whose text is open. -/
def openNames (following : Following) : List String :=
  following.opened.map fun entry => entry.1.name

/-- Whether nothing is left to ask for, and no source is open. -/
def Finished (following : Following) : Prop := following.left = [] ∧ following.opened = []

instance (following : Following) : Decidable following.Finished :=
  inferInstanceAs (Decidable (_ ∧ _))

/-- A call for a name. It returns at once unless the name is new to the host and has text, and then
the text is open until all that it asks for has been. -/
def call (host : FixedHost) (options : Options) (demand : Demand) (following : Following) :
    Following :=
  let called := { following with calls := following.calls + 1 }
  let marked := following.closure.mark (demand.key host)
  if demand.key host ∈ following.closure.seen then called
  else
    match host.read demand.target with
    | .ok (some text) =>
      let source : SourceText := ⟨demand.target, text⟩
      { called with
        left := source.demands options
        opened := (source, following.left) :: following.opened
        closure := marked }
    | .ok none =>
      { called with closure := marked.report ((Closure.notFound demand.target).blame demand.site) }
    | .error error =>
      { called with
        closure := marked.report ((Closure.unreadable demand.target error).blame demand.site) }

/-- What happens next: a call, or the innermost open source is complete. Nothing happens at the
end. -/
def next (host : FixedHost) (options : Options) : Following → Following
  | ⟨demand :: left, opened, closure, calls⟩ =>
    call host options demand ⟨left, opened, closure, calls⟩
  | ⟨[], (source, left) :: opened, closure, calls⟩ => ⟨left, opened, closure.add source, calls⟩
  | ⟨[], [], closure, calls⟩ => ⟨[], [], closure, calls⟩

variable {host : FixedHost} {options : Options} {roots : List String} {demand : Demand}
  {left : List Demand} {opened : List (SourceText × List Demand)} {closure : Closure} {calls : Nat}
  {following : Following} {text : String} {fault : Diagnostic}

theorem next_known (h : demand.key host ∈ closure.seen) :
    next host options ⟨demand :: left, opened, closure, calls⟩ =
      ⟨left, opened, closure, calls + 1⟩ := by
  simp [next, call, h]

theorem next_failed (h : demand.key host ∉ closure.seen)
    (hb : BlamesAt host demand.target demand.site fault) :
    next host options ⟨demand :: left, opened, closure, calls⟩ =
      ⟨left, opened, (closure.mark (demand.key host)).report fault, calls + 1⟩ := by
  rw [hb.eq]
  cases hb.blames with
  | notFound answer => simp [next, call, h, answer, Closure.faultFor]
  | unreadable answer => simp [next, call, h, answer, Closure.faultFor]

theorem next_text (h : demand.key host ∉ closure.seen)
    (ht : host.read demand.target = .ok (some text)) :
    next host options ⟨demand :: left, opened, closure, calls⟩ =
      ⟨SourceText.demands ⟨demand.target, text⟩ options, (⟨demand.target, text⟩, left) :: opened,
        closure.mark (demand.key host), calls + 1⟩ := by
  simp [next, call, h, ht]

/-- A call is for a name that has been asked for, for one that has text, or for one that is blamed.
-/
theorem next_cases (host : FixedHost) (options : Options) (demand : Demand) (left : List Demand)
    (opened : List (SourceText × List Demand)) (closure : Closure) (calls : Nat) :
    let after := next host options ⟨demand :: left, opened, closure, calls⟩
    after = ⟨left, opened, closure, calls + 1⟩ ∨ demand.key host ∉ closure.seen ∧
      ((∃ text, host.read demand.target = .ok (some text) ∧
        after = ⟨SourceText.demands ⟨demand.target, text⟩ options,
          (⟨demand.target, text⟩, left) :: opened, closure.mark (demand.key host), calls + 1⟩) ∨
      ∃ fault, after =
        ⟨left, opened, (closure.mark (demand.key host)).report fault, calls + 1⟩) := by
  by_cases hn : demand.key host ∈ closure.seen
  · exact .inl (next_known hn)
  by_cases ht : ∃ text, host.read demand.target = .ok (some text)
  · obtain ⟨text, ht⟩ := ht
    exact .inr ⟨hn, .inl ⟨text, ht, next_text hn ht⟩⟩
  · exact .inr ⟨hn, .inr ⟨_, next_failed hn (blamesAt_faultFor (not_exists.1 ht) demand.site)⟩⟩

/-- The calls of a walk come to an end, with the sources that were open when it began still open,
and its closure is the one that they have built then. -/
theorem exists_iterate_of_walk {stack names : List String} {demands : List Demand}
    {after : Closure} (h : Closure.Walk host options stack demands closure names after)
    (opened : List (SourceText × List Demand)) (calls : Nat) :
    ∃ n more, (next host options)^[n] ⟨demands, opened, closure, calls⟩ =
      ⟨[], opened, after, more⟩ := by
  induction h generalizing opened calls with
  | done => exact ⟨0, calls, rfl⟩
  | known hn rest ih =>
    obtain ⟨n, more, hrest⟩ := ih opened (calls + 1)
    refine ⟨n + 1, more, ?_⟩
    rw [Function.iterate_succ_apply, next_known hn, hrest]
  | failed hn hb rest ih =>
    obtain ⟨n, more, hrest⟩ := ih opened (calls + 1)
    refine ⟨n + 1, more, ?_⟩
    rw [Function.iterate_succ_apply, next_failed hn hb, hrest]
  | @read stack demand demands closure text inner between names after hn ht below rest ihbelow
      ihrest =>
    -- The call opens the text, its own calls come to an end, the source is complete, and the calls
    -- after it come to an end.
    obtain ⟨deep, between, hbelow⟩ :=
      ihbelow ((⟨demand.target, text⟩, demands) :: opened) (calls + 1)
    obtain ⟨n, more, hrest⟩ := ihrest opened between
    refine ⟨n + 1 + deep + 1, more, ?_⟩
    rw [Function.iterate_succ_apply, next_text hn ht, Function.iterate_add_apply, hbelow,
      Function.iterate_succ_apply]
    exact hrest

/-- How many demands sources make. -/
def asked (options : Options) (sources : List SourceText) : Nat :=
  (sources.map fun source => (source.demands options).length).sum

@[simp] theorem asked_nil (options : Options) : asked options [] = 0 := rfl

@[simp] theorem asked_cons (options : Options) (source : SourceText) (sources : List SourceText) :
    asked options (source :: sources) =
      (source.demands options).length + asked options sources := by
  simp [asked]

@[simp] theorem asked_append (options : Options) (sources others : List SourceText) :
    asked options (sources ++ others) = asked options sources + asked options others := by
  simp [asked]

theorem asked_le (options : Options) (sources : List SourceText) :
    asked options sources ≤
      (sources.map fun source => (Reference.ofText source.text).length).sum := by
  refine List.sum_le_sum fun source _ => ?_
  rw [SourceText.demands, List.length_map, SourceText.followed]
  split
  · exact Nat.zero_le _
  · exact Nat.le_refl _

/-- How many calls are still to be made for what has been opened. -/
def waiting (following : Following) : Nat :=
  following.left.length + (following.opened.map fun entry => entry.2.length).sum

/-- What is true at every moment: the open texts have different names, and one call is made or still
to be made for each name that the program starts from and each demand of a source that is open or
complete. -/
structure Sound (host : FixedHost) (options : Options) (roots : List String)
    (following : Following) : Prop where
  opened : Closure.Open host following.openNames following.closure
  budget : following.calls + following.waiting = (Closure.starts options roots).length +
    (asked options (following.opened.map Prod.fst) + asked options following.closure.sources)

theorem sound_start (host : FixedHost) (options : Options) (roots : List String) :
    (start options roots).Sound host options roots where
  opened := Closure.open_nil _
  budget := by simp [start, waiting, asked, Closure.startDemands]

/-- A call takes itself from those still to be made, and adds those that its text asks for. -/
theorem Sound.call (h : Sound host options roots ⟨demand :: left, opened, closure, calls⟩) :
    (next host options ⟨demand :: left, opened, closure, calls⟩).Sound host options roots := by
  obtain ⟨ho, hb⟩ := h
  simp only [waiting, List.length_cons] at hb
  obtain he | ⟨hn, ⟨text, ht, he⟩ | ⟨fault, he⟩⟩ :=
    next_cases host options demand left opened closure calls
  · rw [he]
    refine ⟨ho, ?_⟩
    simp only [waiting]
    omega
  · rw [he]
    refine ⟨ho.push hn ht, ?_⟩
    simp only [waiting, Closure.mark, List.map_cons, List.sum_cons, asked_cons]
    omega
  · rw [he]
    refine ⟨ho.mono (Closure.subset_mark _ _), ?_⟩
    simp only [waiting, Closure.mark, Closure.report]
    omega

/-- A source that is complete stays among those whose demands have been counted. -/
theorem Sound.complete {source : SourceText}
    (h : Sound host options roots ⟨[], (source, left) :: opened, closure, calls⟩) :
    Sound host options roots ⟨left, opened, closure.add source, calls⟩ := by
  obtain ⟨ho, hb⟩ := h
  refine ⟨⟨(List.nodup_cons.1 ho.nodup).2, ?_, ?_⟩, ?_⟩
  · exact fun name hn => ho.seen name (List.mem_cons_of_mem _ hn)
  · exact fun name hn => ho.texts name (List.mem_cons_of_mem _ hn)
  · simp only [waiting, List.map_cons, List.sum_cons, asked_cons, List.length_nil] at hb
    simp only [waiting, Closure.add, asked_append, asked_cons, asked_nil]
    omega

theorem Sound.next (h : following.Sound host options roots) :
    (following.next host options).Sound host options roots := by
  obtain ⟨left, opened, closure, calls⟩ := following
  cases left with
  | cons demand left => exact h.call
  | nil =>
    cases opened with
    | nil => exact h
    | cons entry opened => exact h.complete

theorem sound_iterate (host : FixedHost) (options : Options) (roots : List String) (n : Nat) :
    ((next host options)^[n] (start options roots)).Sound host options roots := by
  induction n with
  | zero => exact sound_start host options roots
  | succ n ih =>
    rw [Function.iterate_succ_apply']
    exact ih.next

theorem seen_next (host : FixedHost) (options : Options) (following : Following) :
    following.closure.seen <+: (following.next host options).closure.seen := by
  obtain ⟨left, opened, closure, calls⟩ := following
  cases left with
  | nil => cases opened <;> exact List.prefix_refl _
  | cons demand left =>
    obtain he | ⟨-, ⟨text, -, he⟩ | ⟨fault, he⟩⟩ :=
      next_cases host options demand left opened closure calls
    · rw [he]
    · rw [he]
      exact List.prefix_append _ _
    · rw [he]
      exact List.prefix_append _ _

theorem seen_iterate (host : FixedHost) (options : Options) (following : Following) (n : Nat) :
    following.closure.seen <+: ((next host options)^[n] following).closure.seen := by
  induction n with
  | zero => exact List.prefix_refl _
  | succ n ih =>
    rw [Function.iterate_succ_apply']
    exact ih.trans (seen_next host options _)

/-- What has been asked for at a moment is the beginning of what has been at the end. -/
theorem seen_before_end {n : Nat}
    (h : (next host options)^[n] following = ⟨[], [], closure, calls⟩) (m : Nat) :
    ((next host options)^[m] following).closure.seen <+: closure.seen := by
  obtain hm | hm := Nat.le_total m n
  · obtain ⟨more, rfl⟩ := Nat.exists_eq_add_of_le' hm
    rw [Function.iterate_add_apply] at h
    have hseen := seen_iterate host options ((next host options)^[m] following) more
    rwa [h] at hseen
  · obtain ⟨more, rfl⟩ := Nat.exists_eq_add_of_le' hm
    have hfixed : next host options ⟨[], [], closure, calls⟩ = ⟨[], [], closure, calls⟩ := rfl
    rw [Function.iterate_add_apply, h, Function.iterate_fixed hfixed]

/-- At the end every call has been made. -/
theorem Sound.calls_le (h : Sound host options roots ⟨[], [], closure, calls⟩) :
    calls ≤ 1 + roots.length +
      (closure.sources.map fun source => (Reference.ofText source.text).length).sum := by
  have hstarts := Closure.length_starts_le options roots
  have hasked := asked_le options closure.sources
  have hbudget := h.budget
  simp only [waiting, List.map_nil, List.length_nil, List.sum_nil, asked_nil] at hbudget
  omega

end Following

/-- Following references ends, whatever the sources refer to, in the closure of the program. There
is at most one call for the library, one for each root and one for each directive of a source, where
each source is there once and has text. At every moment the host knows the names that have been
asked for as the first of those that the program reads. The texts that are open then have different
names, so that there are no more of them than sources that are registered and the library. -/
theorem following_ends (host : Host) (disk : Disk) (roots : List String) (options : Options)
    (hr : host.read = .strings false)
    (hd : ∀ drive rest, (FileName.normalize host.defaultLibrary).toList = drive :: ':' :: rest →
      drive.isAlpha = false) :
    let moment (n : Nat) :=
      (Following.next (host.answers disk) options)^[n] (Following.start options roots)
    (∃ n, (moment n).Finished ∧
      (moment n).closure = (Closure.ofRoots host.served roots options).value (host.answers disk) ∧
      ((moment n).closure.sources.map SourceText.name).Nodup ∧
      (∀ source ∈ (moment n).closure.sources,
        host.readSource disk source.name = .ok (some source.text)) ∧
      (moment n).calls ≤ 1 + roots.length +
        ((moment n).closure.sources.map fun source =>
          (Reference.ofText source.text).length).sum) ∧
    ∀ n, (moment n).closure.seen <+:
        ((Closure.ofRoots host.served roots options).reads (host.answers disk)).map
          host.canonicalName ∧
      (moment n).openNames.Nodup ∧
      (∀ name ∈ (moment n).openNames, ∃ text, host.readSource disk name = .ok (some text)) ∧
      (moment n).openNames.length ≤ host.sources.size + 1 := by
  intro moment
  have hserved := encard_texts_answers host disk
  obtain ⟨last, calls, hlast⟩ :=
    Following.exists_iterate_of_walk (Closure.walk_ofRoots hserved) [] 0
  have hend : moment last = ⟨[], [], _, calls⟩ := hlast
  have hsound (n : Nat) : (moment n).Sound (host.answers disk) options roots :=
    Following.sound_iterate (host.answers disk) options roots n
  obtain ⟨hclosure, -⟩ := sound_closure_of_host host disk roots options
  refine ⟨⟨last, ?_⟩, fun n => ?_⟩
  · have hcalls := hend ▸ hsound last
    rw [hend]
    exact ⟨⟨rfl, rfl⟩, rfl, hclosure.sources_nodup,
      fun source hs => ((hclosure.mem_sources source).1 hs).2.2, hcalls.calls_le⟩
  · have ho := (hsound n).opened
    refine ⟨?_, ho.nodup, fun name hn => (ho.texts name hn).2, ?_⟩
    · have hseen := Following.seen_before_end hlast n
      rwa [hclosure.seen] at hseen
    · exact FixedHost.length_le_of_encard (encard_texts_of_strings hr hd disk) ho.nodup ho.texts

/-- Two sources that refer to each other, one of them also to itself, and the other to a name above
the start and twice to one more without text, beside a library that refers to itself. -/
theorem following_ends_cyclic :
    let host : Host := {
      configuration := { library := some "lib/../core.d.ts" }
      read := .strings false
      sources := .ofList [
        ("a.ts", "///<reference path='b.ts'/>\n///<reference path='./a.ts'/>\n"),
        ("b.ts", "///<reference path='c/../a.ts'/>\n///<reference path='../../up.ts'/>\n" ++
          "///<reference path='gone.ts'/>\n///<reference path='gone.ts'/>\n")]
      sourceNames := ["a.ts", "b.ts"] }
    let disk : Disk :=
      ⟨.directory [("core.d.ts", .file "///<reference path='core.d.ts'/>\n".toUTF8)], .root⟩
    let options : Options := { defaultLibrary := some "lib/../core.d.ts" }
    let moment (n : Nat) :=
      (Following.next (host.answers disk) options)^[n] (Following.start options ["a.ts"])
    host.read = .strings false ∧
    (∀ drive rest, (FileName.normalize host.defaultLibrary).toList = drive :: ':' :: rest →
      drive.isAlpha = false) ∧
    (moment 12).Finished ∧ (moment 12).calls = 9 ∧
    (moment 12).closure.seen = ["core.d.ts", "a.ts", "b.ts", "../../up.ts", "gone.ts"] ∧
    (moment 5).openNames = ["b.ts", "a.ts"] ∧
    ∀ n, (moment n).openNames.Nodup ∧ (moment n).openNames.length ≤ 3 := by
  intro host disk options moment
  have hr : host.read = .strings false := rfl
  have hd : ∀ drive rest, (FileName.normalize host.defaultLibrary).toList = drive :: ':' :: rest →
      drive.isAlpha = false := by
    have hn : (FileName.normalize host.defaultLibrary).toList =
        ['c', 'o', 'r', 'e', '.', 'd', '.', 't', 's'] := by decide +kernel
    intro drive rest h
    simp [hn] at h
  obtain ⟨-, hall⟩ := following_ends host disk ["a.ts"] options hr hd
  have hrun : (moment 12).Finished ∧ (moment 12).calls = 9 ∧
      (moment 12).closure.seen = ["core.d.ts", "a.ts", "b.ts", "../../up.ts", "gone.ts"] ∧
      (moment 5).openNames = ["b.ts", "a.ts"] := by decide +kernel
  obtain ⟨hend, hcalls, hseen, hopen⟩ := hrun
  refine ⟨hr, hd, hend, hcalls, hseen, hopen, fun n => ?_⟩
  obtain ⟨-, hnodup, -, hlength⟩ := hall n
  exact ⟨hnodup, hlength⟩

end ScriptHost
