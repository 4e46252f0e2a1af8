import ScriptHost.Engine.Verbatim
import ScriptHost.Proofs.Closure.Walk

/-! A program holds exactly what its roots and library lead to: each name on the way is read once,
unless one that is the same to the host has been, and is either a source or blamed. -/

namespace ScriptHost

/-- The names that a program cannot do without: the library and the roots, and whatever a source
that is reached and can be read refers to. -/
inductive Reached (host : FixedHost) (options : Options) (roots : List String) : String → Prop where
  | library {name} (hl : options.noLib = false) (hn : options.defaultLibrary = some name) :
      Reached host options roots (FileName.normalize name)
  | root {name} (hn : name ∈ roots) : Reached host options roots (FileName.normalize name)
  | reference {name text reference} (hr : options.noResolve = false)
      (hn : Reached host options roots name) (answer : host.read name = .ok (some text))
      (hm : reference ∈ Reference.ofText text) :
      Reached host options roots
        (FileName.normalize (FileName.combine (FileName.directoryOf name) reference.path))

theorem Reached.exists_normalize_eq {host : FixedHost} {options : Options} {roots : List String}
    {name : String} (h : Reached host options roots name) :
    ∃ spelling, FileName.normalize spelling = name := by
  cases h with
  | library _ hn => exact ⟨_, rfl⟩
  | root _ => exact ⟨_, rfl⟩
  | reference _ _ _ _ => exact ⟨_, rfl⟩

/-- Names that are the same to a host have the same text, and lead to names that are the same. -/
structure FixedHost.Folds (host : FixedHost) : Prop where
  read {name other} (h : host.canonicalName name = host.canonicalName other) :
    host.read name = host.read other
  target {name other} (h : host.canonicalName name = host.canonicalName other) (path : String) :
    host.canonicalName (FileName.normalize (FileName.combine (FileName.directoryOf name) path)) =
      host.canonicalName (FileName.normalize (FileName.combine (FileName.directoryOf other) path))

namespace Closure

variable {host : FixedHost} {options : Options} {roots : List String} {served : Nat}
  {stack names before : List String} {demand : Demand} {demands : List Demand}
  {closure after : Closure} {name text : String} {fault : Diagnostic} {source : SourceText}

/-- Whether a host has no text under a name. -/
def lacks (host : FixedHost) (name : String) : Bool :=
  match host.read name with
  | .ok (some _) => false
  | _ => true

theorem lacks_eq_true_iff : lacks host name = true ↔ ∀ text, host.read name ≠ .ok (some text) := by
  unfold lacks
  cases host.read name with
  | error error => simp
  | ok answer => cases answer <;> simp

theorem lacks_of_blames (h : Blames host name fault) : lacks host name = true :=
  lacks_eq_true_iff.2 h.lacks

theorem reached_of_mem_demands (h : Reached host options roots source.name)
    (hr : host.read source.name = .ok (some source.text)) (hd : demand ∈ source.demands options) :
    Reached host options roots demand.target := by
  obtain ⟨hn, reference, hm, rfl⟩ := SourceText.mem_demands.1 hd
  exact .reference hn h hr hm

/-- What holds of a closure for which names have been read, while the texts of a stack of names are
open. The closure knows each of them by a different key. Every one of them is reached, and is open,
a source whose own references have been followed, or blamed. -/
structure Sound (host : FixedHost) (options : Options) (roots : List String)
    (stack names : List String) (closure : Closure) : Prop where
  seen : closure.seen = names.map host.canonicalName
  nodup : closure.seen.Nodup
  reached : ∀ name ∈ names, Reached host options roots name
  sources_nodup : (closure.sources.map SourceText.name).Nodup
  mem_sources : ∀ source, source ∈ closure.sources ↔
    source.name ∈ names ∧ source.name ∉ stack ∧ host.read source.name = .ok (some source.text)
  followed : ∀ source ∈ closure.sources, ∀ demand ∈ source.demands options,
    demand.key host ∈ closure.seen
  faults : List.Forall₂ (Blames host) (names.filter (lacks host)) closure.faults

theorem sound_empty : Sound host options roots [] [] {} where
  seen := rfl
  nodup := List.nodup_nil
  reached := by simp
  sources_nodup := List.nodup_nil
  mem_sources := by simp
  followed := by simp
  faults := .nil

theorem Sound.mem_seen (h : Sound host options roots stack names closure) (hn : name ∈ names) :
    host.canonicalName name ∈ closure.seen := h.seen ▸ List.mem_map_of_mem hn

/-- Names that have been read are the same to the host only if they are the same. -/
theorem Sound.eq_of_canonicalName {other : String}
    (h : Sound host options roots stack names closure) (hn : name ∈ names) (ho : other ∈ names)
    (he : host.canonicalName name = host.canonicalName other) : name = other :=
  List.inj_on_of_nodup_map (h.seen ▸ h.nodup) hn ho he

theorem Sound.nodup_mark (h : Sound host options roots stack names closure) {key : String}
    (hn : key ∉ closure.seen) : (closure.mark key).seen.Nodup := by
  refine List.nodup_append.2 ⟨h.nodup, List.nodup_singleton key, ?_⟩
  intro a ha b hb hab
  obtain rfl := List.mem_singleton.1 hb
  exact hn (hab ▸ ha)

theorem Sound.seen_mark (h : Sound host options roots stack names closure) (name : String) :
    (closure.mark (host.canonicalName name)).seen = (names ++ [name]).map host.canonicalName := by
  simp [mark, h.seen]

theorem Sound.reached_concat (h : Sound host options roots stack names closure)
    (hr : Reached host options roots name) :
    ∀ other ∈ names ++ [name], Reached host options roots other := by
  intro other ho
  obtain ho | ho := List.mem_append.1 ho
  · exact h.reached other ho
  · exact List.mem_singleton.1 ho ▸ hr

theorem Sound.blame (h : Sound host options roots stack names closure)
    (hn : host.canonicalName name ∉ closure.seen) (hr : Reached host options roots name)
    (hb : Blames host name fault) :
    Sound host options roots stack (names ++ [name])
      ((closure.mark (host.canonicalName name)).report fault) where
  seen := h.seen_mark name
  nodup := h.nodup_mark hn
  reached := h.reached_concat hr
  sources_nodup := h.sources_nodup
  mem_sources := by
    intro source
    refine (h.mem_sources source).trans
      ⟨fun ⟨hs, hrest⟩ => ⟨List.mem_append_left _ hs, hrest⟩, ?_⟩
    rintro ⟨hs, hstack, htext⟩
    obtain hs | hs := List.mem_append.1 hs
    · exact ⟨hs, hstack, htext⟩
    · rw [List.mem_singleton.1 hs] at htext
      exact (hb.lacks _ htext).elim
  followed := fun source hs demand hd => subset_mark _ _ (h.followed source hs demand hd)
  faults := by
    simpa [mark, report, lacks_of_blames hb] using List.rel_append h.faults (.cons hb .nil)

theorem Sound.push (h : Sound host options roots stack names closure)
    (hn : host.canonicalName name ∉ closure.seen) (hr : Reached host options roots name)
    (ht : host.read name = .ok (some text)) :
    Sound host options roots (name :: stack) (names ++ [name])
      (closure.mark (host.canonicalName name)) where
  seen := h.seen_mark name
  nodup := h.nodup_mark hn
  reached := h.reached_concat hr
  sources_nodup := h.sources_nodup
  mem_sources := by
    intro source
    refine (h.mem_sources source).trans ⟨?_, ?_⟩
    · rintro ⟨hs, hstack, htext⟩
      refine ⟨List.mem_append_left _ hs, ?_, htext⟩
      intro hmem
      obtain he | hmem := List.mem_cons.1 hmem
      · exact hn (he ▸ h.mem_seen hs)
      · exact hstack hmem
    · rintro ⟨hs, hstack, htext⟩
      obtain ⟨hne, hstack⟩ := List.ne_and_not_mem_of_not_mem_cons hstack
      obtain hs | hs := List.mem_append.1 hs
      · exact ⟨hs, hstack, htext⟩
      · exact (hne (List.mem_singleton.1 hs)).elim
  followed := fun source hs demand hd => subset_mark _ _ (h.followed source hs demand hd)
  faults := by
    have hl : lacks host name = false := by simp [lacks, ht]
    simpa [mark, hl] using h.faults

/-- A source is complete when nothing that it refers to is left to ask for. -/
theorem Sound.pop (h : Sound host options roots (source.name :: stack) names closure)
    (hn : source.name ∈ names) (hstack : source.name ∉ stack)
    (ht : host.read source.name = .ok (some source.text))
    (hd : ∀ demand ∈ source.demands options, demand.key host ∈ closure.seen) :
    Sound host options roots stack names (closure.add source) where
  seen := h.seen
  nodup := h.nodup
  reached := h.reached
  sources_nodup := by
    simp only [add, List.map_append, List.map_cons, List.map_nil]
    refine List.nodup_append.2 ⟨h.sources_nodup, List.nodup_singleton _, ?_⟩
    intro a ha b hb hab
    obtain rfl := List.mem_singleton.1 hb
    obtain ⟨other, hother, he⟩ := List.mem_map.1 ha
    have := ((h.mem_sources other).1 hother).2.1
    simp [he, hab] at this
  mem_sources := by
    intro other
    simp only [add, List.mem_append, List.mem_singleton]
    constructor
    · rintro (hother | rfl)
      · obtain ⟨hs, hnot, htext⟩ := (h.mem_sources other).1 hother
        exact ⟨hs, List.not_mem_of_not_mem_cons hnot, htext⟩
      · exact ⟨hn, hstack, ht⟩
    · rintro ⟨hs, hnot, htext⟩
      by_cases he : other.name = source.name
      · right
        rw [he, ht] at htext
        cases other
        cases source
        simp_all
      · left
        exact (h.mem_sources other).2 ⟨hs, List.not_mem_cons_of_ne_of_not_mem he hnot, htext⟩
  followed := by
    intro other hother demand hm
    obtain hother | hother := List.mem_append.1 hother
    · exact h.followed other hother demand hm
    · obtain rfl := List.mem_singleton.1 hother
      exact hd demand hm
  faults := h.faults

/-- What was true of the open texts before a source was read is true again once it is complete. -/
theorem Walk.complete (below : Walk host options (demand.target :: stack)
      (SourceText.demands ⟨demand.target, text⟩ options) (closure.mark (demand.key host)) names
      after)
    (ho : Open host stack closure) (hn : demand.key host ∉ closure.seen)
    (ht : host.read demand.target = .ok (some text))
    (hs : Sound host options roots (demand.target :: stack) (before ++ [demand.target] ++ names)
      after)
    (hd : ∀ d ∈ SourceText.demands ⟨demand.target, text⟩ options, d.key host ∈ after.seen) :
    Open host stack (after.add ⟨demand.target, text⟩) ∧
      Sound host options roots stack (before ++ [demand.target] ++ names)
        (after.add ⟨demand.target, text⟩) :=
  ⟨ho.mono (List.Subset.trans (subset_mark _ _) below.seen_subset),
    hs.pop (by simp) (ho.not_mem hn) ht hd⟩

/-- A walk keeps a closure sound, and leaves none of its demands unasked. -/
theorem Walk.sound (h : Walk host options stack demands closure names after)
    (ho : Open host stack closure) (hs : Sound host options roots stack before closure)
    (hd : ∀ demand ∈ demands, Reached host options roots demand.target) :
    Sound host options roots stack (before ++ names) after ∧
      ∀ demand ∈ demands, demand.key host ∈ after.seen := by
  induction h generalizing before with
  | done => exact ⟨by rwa [List.append_nil], by simp⟩
  | known hn rest ih =>
    obtain ⟨hsound, hseen⟩ := ih ho hs (List.forall_mem_cons.1 hd).2
    exact ⟨hsound, List.forall_mem_cons.2 ⟨rest.seen_subset hn, hseen⟩⟩
  | @failed stack demand demands closure names after fault hn hb rest ih =>
    obtain ⟨hfirst, hd⟩ := List.forall_mem_cons.1 hd
    obtain ⟨hsound, hseen⟩ := ih (ho.mono (subset_mark _ _)) (hs.blame hn hfirst hb.blames) hd
    rw [List.append_cons]
    exact ⟨hsound, List.forall_mem_cons.2 ⟨rest.seen_subset (mem_mark _ _), hseen⟩⟩
  | @read stack demand demands closure text inner between names after hn ht below rest ihbelow
      ihrest =>
    obtain ⟨hfirst, hd⟩ := List.forall_mem_cons.1 hd
    obtain ⟨hinner, hasked⟩ := ihbelow (ho.push hn ht) (hs.push hn hfirst ht)
      (fun demand hm => reached_of_mem_demands hfirst ht hm)
    obtain ⟨hopen, hadd⟩ := below.complete ho hn ht hinner hasked
    obtain ⟨hsound, hseen⟩ := ihrest hopen hadd hd
    have hmem := rest.seen_subset (below.seen_subset (mem_mark _ _))
    rw [List.append_cons, ← List.append_assoc]
    exact ⟨hsound, List.forall_mem_cons.2 ⟨hmem, hseen⟩⟩

/-- The demands that a program starts from. -/
def startDemands (options : Options) (roots : List String) : List Demand :=
  (starts options roots).map (Demand.mk none)

theorem ofRoots_eq_visitAll (served : Nat) (roots : List String) (options : Options) :
    ofRoots served roots options =
      visitAll options (served + 1) (startDemands options roots) {} := by
  simp [ofRoots, visitAll, startDemands, List.foldlM_map]

theorem reached_of_mem_startDemands (hd : demand ∈ startDemands options roots) :
    Reached host options roots demand.target := by
  obtain ⟨name, hm, rfl⟩ := List.mem_map.1 hd
  obtain hm | hm := List.mem_append.1 hm
  · split at hm
    · simp at hm
    · rename_i hl
      exact .library (by simpa using hl) (Option.mem_toList.1 hm)
  · exact .root hm

theorem enclosed_reached (host : FixedHost) (options : Options) (roots : List String) :
    Enclosed host options {name | Reached host options roots name} := by
  intro name hn text hr demand hd
  let source : SourceText := ⟨name, text⟩
  have hreached : Reached host options roots source.name := hn
  exact reached_of_mem_demands hreached hr hd

theorem only_ofRoots (served : Nat) (roots : List String) (options : Options) :
    (ofRoots served roots options).Only Ask.IsLookUp := by
  rw [ofRoots_eq_visitAll]
  exact only_visitAll only_visit

/-- The walk through a program goes to its end when no more texts are reached than its bound. -/
theorem walk_ofRoots_of_reached
    (hb : (host.texts ∩ {name | Reached host options roots name}).encard ≤ served) :
    let task := ofRoots served roots options
    Walk host options [] (startDemands options roots) {} (task.reads host) (task.value host) := by
  intro task
  have ht : task = visitAll options (served + 1) (startDemands options roots) {} :=
    ofRoots_eq_visitAll served roots options
  rw [ht]
  exact walk_visitAll (enclosed_reached host options roots) hb (open_nil _) (by simp)
    (fun _ hd => reached_of_mem_startDemands hd) (by simp)

theorem walk_ofRoots (hb : host.texts.encard ≤ served) :
    let task := ofRoots served roots options
    Walk host options [] (startDemands options roots) {} (task.reads host) (task.value host) :=
  walk_ofRoots_of_reached ((Set.encard_le_encard Set.inter_subset_left).trans hb)

/-- Every name that a program starts from is read, or one that is the same to the host. -/
def Covers (host : FixedHost) (options : Options) (roots names : List String) : Prop :=
  ∀ name ∈ starts options roots, ∃ other ∈ names,
    host.canonicalName other = host.canonicalName (FileName.normalize name)

theorem Walk.sound_of_starts
    (h : Walk host options [] (startDemands options roots) {} names after) :
    Sound host options roots [] names after ∧ Covers host options roots names := by
  obtain ⟨hsound, hstart⟩ := h.sound (open_nil _) sound_empty
    fun _ hd => reached_of_mem_startDemands hd
  rw [List.nil_append] at hsound
  refine ⟨hsound, fun name hn => ?_⟩
  have hkey := hstart ⟨none, name⟩ (List.mem_map_of_mem hn)
  rw [hsound.seen] at hkey
  exact List.mem_map.1 hkey

/-- What a text refers to that has been read is read too, or something that is the same to the host.
-/
theorem Sound.covers_reference (h : Sound host options roots [] names closure)
    (hr : options.noResolve = false) (hn : name ∈ names)
    (answer : host.read name = .ok (some text)) {reference : Reference}
    (hm : reference ∈ Reference.ofText text) :
    ∃ other ∈ names, host.canonicalName other = host.canonicalName
      (FileName.normalize (FileName.combine (FileName.directoryOf name) reference.path)) := by
  have hsource := (h.mem_sources ⟨name, text⟩).2 ⟨hn, by simp, answer⟩
  have hkey := h.followed _ hsource
    ⟨some (reference.site ⟨name, text⟩), reference.target ⟨name, text⟩⟩
    (SourceText.mem_demands.2 ⟨hr, reference, hm, rfl⟩)
  rw [h.seen] at hkey
  exact List.mem_map.1 hkey

theorem mem_starts_library (hl : options.noLib = false) (hn : options.defaultLibrary = some name) :
    name ∈ starts options roots := by
  simp [starts, hl, hn]

theorem mem_starts_root (hn : name ∈ roots) : name ∈ starts options roots :=
  List.mem_append_right _ hn

/-- Where no two of the names that are reached are the same to the host, all of them are read. -/
theorem Sound.mem_iff_reached (h : Sound host options roots [] names closure)
    (hs : Covers host options roots names)
    (hi : Set.InjOn host.canonicalName {name | Reached host options roots name}) :
    name ∈ names ↔ Reached host options roots name := by
  have hread {name : String} (hname : Reached host options roots name)
      (hex : ∃ other ∈ names, host.canonicalName other = host.canonicalName name) :
      name ∈ names := by
    obtain ⟨other, hother, he⟩ := hex
    exact hi (h.reached other hother) hname he ▸ hother
  refine ⟨h.reached name, fun hreached => ?_⟩
  induction hreached with
  | library hl hn => exact hread (.library hl hn) (hs _ (mem_starts_library hl hn))
  | root hn => exact hread (.root hn) (hs _ (mem_starts_root hn))
  | reference hr hn answer hm ih =>
    exact hread (.reference hr hn answer hm) (h.covers_reference hr ih answer hm)

/-- Where names that are the same to the host have the same text and lead to the same, something
that is the same is read for each name that is reached. -/
theorem Sound.exists_of_reached (h : Sound host options roots [] names closure)
    (hs : Covers host options roots names) (hf : host.Folds)
    (hreached : Reached host options roots name) :
    ∃ other ∈ names, host.canonicalName other = host.canonicalName name := by
  induction hreached with
  | library hl hn => exact hs _ (mem_starts_library hl hn)
  | root hn => exact hs _ (mem_starts_root hn)
  | reference hr hn answer hm ih =>
    obtain ⟨same, hsame, he⟩ := ih
    rw [← hf.read he] at answer
    obtain ⟨other, hother, ht⟩ := h.covers_reference hr hsame answer hm
    exact ⟨other, hother, ht.trans (hf.target he _)⟩

theorem sound_ofRoots (hb : host.texts.encard ≤ served) (roots : List String)
    (options : Options) :
    let task := ofRoots served roots options
    Sound host options roots [] (task.reads host) (task.value host) ∧
      Covers host options roots (task.reads host) :=
  (walk_ofRoots hb).sound_of_starts

end Closure

theorem value_build_verbatim (host : FixedHost) (served : Nat) (roots : List String)
    (options : Options) : (Engine.verbatim.build served roots options).value host =
      ((Closure.ofRoots served roots options).value host).program options := by
  simp [Engine.verbatim]

theorem reads_build_verbatim (host : FixedHost) (served : Nat) (roots : List String)
    (options : Options) : (Engine.verbatim.build served roots options).reads host =
      (Closure.ofRoots served roots options).reads host := by
  simp [Engine.verbatim]

theorem only_build_verbatim (served : Nat) (roots : List String) (options : Options) :
    (Engine.verbatim.build served roots options).Only Ask.IsLookUp :=
  (Closure.only_ofRoots served roots options).bind fun _ => trivial

/-- Two sources that refer to each other, to themselves and to a name without text. -/
def cyclicHost : FixedHost := .serving [
  ("a.ts", "/// <reference path=\"b.ts\" />\n/// <reference path='./a.ts' />\nvar a;\n"),
  ("b.ts", "/// <reference path=\"c/../a.ts\" />\n/// <reference path=\"gone.ts\" />\n")]

/-- Of two names that are the same to a host, the one that is asked for first is read. -/
example : (Engine.verbatim.build 1 ["A.ts", "./a.ts"] {}).reads
    { cyclicHost with canonicalName := fun name => if name = "A.ts" then "a.ts" else name } =
      ["A.ts"] := by decide

end ScriptHost
