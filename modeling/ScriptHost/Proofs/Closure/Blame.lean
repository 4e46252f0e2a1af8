import ScriptHost.Proofs.Closure.Order
import ScriptHost.Proofs.Reference.Standing

/-! Each diagnostic of a program is at the directive that was the first to ask for its name, or at
no place when the program starts from the name. -/

namespace ScriptHost

open Text

/-- A program starts from a name after what some of its roots lead to: from the library after none,
and from a root after those before the first that is the same to the host. -/
inductive Starts (host : FixedHost) (options : Options) (roots : List String) :
    (name : String) → (before : List String) → Prop where
  | library {name} (hl : options.noLib = false) (hn : options.defaultLibrary = some name) :
      Starts host options roots (FileName.normalize name) []
  | root {before name after} (hr : roots = before ++ name :: after)
      (first : ∀ other ∈ before, host.canonicalName (FileName.normalize other) ≠
        host.canonicalName (FileName.normalize name)) :
      Starts host options roots (FileName.normalize name) before

/-- The library or some roots lead to a source of a program through sources of the program. -/
inductive Program.LeadsTo (program : Program) (host : FixedHost) (options : Options)
    (roots : List String) : SourceText → Prop where
  | library {name source} (hl : options.noLib = false) (hn : options.defaultLibrary = some name)
      (hs : source ∈ program.sources)
      (same : host.canonicalName source.name = host.canonicalName (FileName.normalize name)) :
      LeadsTo program host options roots source
  | root {name source} (hn : name ∈ roots) (hs : source ∈ program.sources)
      (same : host.canonicalName source.name = host.canonicalName (FileName.normalize name)) :
      LeadsTo program host options roots source
  | reference {source target} (hl : LeadsTo program host options roots source)
      (h : program.Refers host source target) : LeadsTo program host options roots target

variable {host : FixedHost} {options : Options} {roots : List String} {served : Nat}
  {fault : Diagnostic} {site : Option Site} {name : String}

theorem BlamesAt.source (h : BlamesAt host name site fault) :
    fault.source = site.map Site.source := by
  cases site with
  | none => exact h.place.1
  | some site => exact h.place.1

namespace Closure

variable {stack before names all : List String} {demand : Demand} {demands : List Demand}
  {closure between after : Closure} {source : SourceText}

theorem Walk.sources_subset (h : Walk host options stack demands closure names after) :
    closure.sources ⊆ after.sources := by
  induction h with
  | done => exact List.Subset.refl _
  | known _ _ ih => exact ih
  | failed _ _ _ ih => exact ih
  | read _ _ _ _ ihbelow ihrest =>
    exact List.Subset.trans ihbelow (List.Subset.trans (List.subset_append_left _ _) ihrest)

/-- A demand among others is the first that asks for a name, which is blamed on it. Only some of the
names that are read in all have been read by then. -/
structure FirstAsks (host : FixedHost) (options : Options) (stack : List String)
    (demands : List Demand) (closure : Closure) (all : List String) (front : List Demand)
    (demand : Demand) (fault : Diagnostic) : Prop where
  stands : ∃ back, demands = front ++ demand :: back
  walk : ∃ names between, Walk host options stack front closure names between ∧ names ⊆ all ∧
    demand.key host ∉ between.seen
  read : demand.target ∈ all
  blames : BlamesAt host demand.target demand.site fault

theorem FirstAsks.known {first : Demand} {front : List Demand}
    (h : FirstAsks host options stack demands closure all front demand fault)
    (hn : first.key host ∈ closure.seen) :
    FirstAsks host options stack (first :: demands) closure all (first :: front) demand fault := by
  obtain ⟨⟨back, rfl⟩, ⟨names, between, hwalk, hsub, hout⟩, hread, hb⟩ := h
  exact ⟨⟨back, rfl⟩, ⟨names, between, .known hn hwalk, hsub, hout⟩, hread, hb⟩

/-- A walk finds a fault on the first of its demands that asks for a name, or on a demand of a
source that it completes. -/
theorem Walk.origin (h : Walk host options stack demands closure all after)
    (hf : fault ∈ after.faults) :
    fault ∈ closure.faults ∨
      (∃ front demand, FirstAsks host options stack demands closure all front demand fault) ∨
      ∃ source ∈ after.sources, ∃ demand ∈ source.demands options,
        BlamesAt host demand.target demand.site fault := by
  induction h with
  | done => exact .inl hf
  | known hn rest ih =>
    obtain hf | ⟨front, demand, hfirst⟩ | hbelow := ih hf
    · exact .inl hf
    · exact .inr (.inl ⟨_, demand, hfirst.known hn⟩)
    · exact .inr (.inr hbelow)
  | @failed stack first demands closure all after blame hn hfirst rest ih =>
    obtain hf | ⟨front, demand, ⟨back, rfl⟩, ⟨names, between, hwalk, hsub, hout⟩, hread, hb⟩ |
        hbelow := ih hf
    · obtain hf | hf := List.mem_append.1 hf
      · exact .inl hf
      · obtain rfl := List.mem_singleton.1 hf
        exact .inr (.inl ⟨[], first, ⟨demands, rfl⟩, ⟨[], closure, .done, List.nil_subset _, hn⟩,
          List.mem_cons_self, hfirst⟩)
    · exact .inr (.inl ⟨first :: front, demand, ⟨back, rfl⟩,
        ⟨_, between, .failed hn hfirst hwalk, List.cons_subset_cons _ hsub, hout⟩,
        List.mem_cons_of_mem _ hread, hb⟩)
    · exact .inr (.inr hbelow)
  | @read stack first demands closure text inner middle all after hn ht below rest ihbelow ihrest =>
    have hsources : (middle.add ⟨first.target, text⟩).sources ⊆ after.sources := rest.sources_subset
    obtain hf | ⟨front, demand, ⟨back, rfl⟩, ⟨names, between, hwalk, hsub, hout⟩, hread, hb⟩ |
        hbelow := ihrest hf
    · obtain hf | ⟨front, demand, ⟨back, hdemands⟩, -, -, hb⟩ | ⟨source, hs, hb⟩ := ihbelow hf
      · exact .inl hf
      · refine .inr (.inr ⟨⟨first.target, text⟩, hsources ?_, demand, ?_, hb⟩)
        · exact List.mem_append_right _ (List.mem_singleton_self _)
        · rw [hdemands]
          exact List.mem_append_right _ List.mem_cons_self
      · exact .inr (.inr ⟨source, hsources (List.mem_append_left _ hs), hb⟩)
    · exact .inr (.inl ⟨first :: front, demand, ⟨back, rfl⟩,
        ⟨_, between, .read hn ht below hwalk,
          List.cons_subset_cons _ (List.append_subset.2 ⟨List.subset_append_left _ _,
            List.subset_append_of_subset_right _ hsub⟩), hout⟩,
        List.mem_cons_of_mem _ (List.mem_append_right _ hread), hb⟩)
    · exact .inr (.inr hbelow)

/-- What stands before a name among those that a program starts from is nothing if it is the
library, and is what it starts from with the roots before it otherwise. -/
theorem startDemands_eq_append {front back : List Demand}
    (h : startDemands options roots = front ++ demand :: back) : demand.site = none ∧
      ((options.noLib = false ∧ options.defaultLibrary = some demand.name) ∨
        ∃ before rest, roots = before ++ demand.name :: rest ∧
          front = startDemands options before) := by
  obtain ⟨names, others, hstarts, rfl, hothers⟩ := List.map_eq_append_iff.1 h
  obtain ⟨name, rest, rfl, rfl, -⟩ := List.map_eq_cons_iff.1 hothers
  refine ⟨rfl, ?_⟩
  obtain ⟨before, rfl, hroots⟩ | ⟨excess, hfirst, hexcess⟩ := List.append_eq_append_iff.1 hstarts
  · exact Or.inr ⟨before, rest, hroots, rfl⟩
  · cases excess with
    | nil =>
      refine Or.inr ⟨[], rest, by simpa using hexcess.symm, ?_⟩
      rw [List.append_nil] at hfirst
      simp [startDemands, starts, hfirst]
    | cons first excess =>
      obtain ⟨rfl, -⟩ := List.cons.inj hexcess
      have hm : name ∈ (if options.noLib then [] else options.defaultLibrary.toList) := by
        simp [hfirst]
      split at hm
      · simp at hm
      · rename_i hl
        exact Or.inl ⟨by simpa using hl, Option.mem_toList.1 hm⟩

/-- What some roots lead to has been read once these have been asked for. -/
theorem Sound.mem_of_leadsTo (h : Sound host options before [] names between)
    (hc : Covers host options before names) (ha : Sound host options roots [] all after)
    (hsub : names ⊆ all) (hr : options.noResolve = false)
    (hl : (after.program options).LeadsTo host options before source) : source.name ∈ names := by
  -- What is the same to the host as a source is the source, as far as it is read at all.
  have hread {source : SourceText} (hs : source ∈ after.sources)
      (hex : ∃ other ∈ names, host.canonicalName other = host.canonicalName source.name) :
      source.name ∈ names := by
    obtain ⟨other, hother, he⟩ := hex
    exact ha.eq_of_canonicalName (hsub hother) ((ha.mem_sources source).1 hs).1 he ▸ hother
  induction hl with
  | library hl hn hs same => exact hread hs (same ▸ hc _ (mem_starts_library hl hn))
  | root hn hs same => exact hread hs (same ▸ hc _ (mem_starts_root hn))
  | reference hl hrefers ih =>
    obtain ⟨hsource, htarget, reference, hm, same⟩ := hrefers
    refine hread htarget ?_
    rw [← same]
    exact h.covers_reference hr ih ((ha.mem_sources _).1 hsource).2.2 hm

/-- A library without text leads to no source. -/
theorem Sound.not_leadsTo_of_lacks (ha : Sound host options roots [] all after) {library : String}
    (hn : options.defaultLibrary = some library) (hread : FileName.normalize library ∈ all)
    (ht : ∀ text, host.read (FileName.normalize library) ≠ .ok (some text)) :
    ¬ (after.program options).LeadsTo host options [] source := by
  intro hl
  induction hl with
  | @library name source _ hm hs same =>
    obtain rfl : library = name := Option.some.inj (hn.symm.trans hm)
    obtain ⟨hmem, -, htext⟩ := (ha.mem_sources source).1 hs
    rw [ha.eq_of_canonicalName hmem hread same] at htext
    exact ht _ htext
  | root hm => simp at hm
  | reference _ _ ih => exact ih

/-- A name that is blamed although nothing asks for it is one that the program starts from, and
nothing before it led to it. -/
theorem FirstAsks.starts {front : List Demand} (ha : Sound host options roots [] all after)
    (h : FirstAsks host options [] (startDemands options roots) {} all front demand fault) :
    demand.site = none ∧ ∃ before, Starts host options roots demand.target before ∧
      (options.noResolve = false → ∀ source,
        (after.program options).LeadsTo host options before source →
          ∀ reference ∈ Reference.ofText source.text,
            host.canonicalName (FileName.normalize (reference.target source)) ≠
              host.canonicalName demand.target) := by
  obtain ⟨⟨back, hd⟩, ⟨names, between, hwalk, hsub, hout⟩, hread, hb⟩ := h
  obtain ⟨hsite, ⟨hl, hlibrary⟩ | ⟨before, rest, rfl, rfl⟩⟩ := startDemands_eq_append hd
  · refine ⟨hsite, [], .library hl hlibrary, fun _ source hleads => ?_⟩
    exact (ha.not_leadsTo_of_lacks hlibrary hread hb.blames.lacks hleads).elim
  · obtain ⟨hsound, hcovers⟩ := hwalk.sound_of_starts
    have hnew {other : String} (ho : other ∈ names) :
        host.canonicalName other ≠ host.canonicalName demand.target := by
      intro he
      have hkey := hsound.mem_seen ho
      rw [he] at hkey
      exact hout hkey
    refine ⟨hsite, before, .root rfl fun other ho he => ?_,
      fun hr source hleads reference hm he => ?_⟩
    · obtain ⟨same, hsame, hkey⟩ := hcovers other (mem_starts_root ho)
      exact hnew hsame (hkey.trans he)
    · have hmem := hsound.mem_of_leadsTo hcovers ha hsub hr hleads
      have htext : host.read source.name = .ok (some source.text) := by
        have hs : source ∈ after.sources := by
          cases hleads with
          | library _ _ hs => exact hs
          | root _ hs => exact hs
          | reference _ hrefers => exact hrefers.2.1
        exact ((ha.mem_sources source).1 hs).2.2
      obtain ⟨same, hsame, hkey⟩ := hsound.covers_reference hr hmem htext hm
      exact hnew hsame (hkey.trans he)

end Closure

/-- A diagnostic is at a directive of a source, for the name that the directive asks for. -/
def AtDirective (host : FixedHost) (source : SourceText) (fault : Diagnostic) : Prop :=
  ∃ reference ∈ Reference.ofText source.text, ∃ before directive after,
    reference.Stands source.text.toList before directive after ∧
    fault.start = byteLength before ∧ fault.length = byteLength directive ∧
    Blames host (FileName.normalize
      (FileName.combine (FileName.directoryOf source.name) reference.path)) fault

theorem atDirective_of_blamesAt {reference : Reference} {source : SourceText}
    (hm : reference ∈ Reference.ofText source.text)
    (hb : BlamesAt host (FileName.normalize (reference.target source))
      (some (reference.site source)) fault) : AtDirective host source fault := by
  obtain ⟨before, directive, after, hs⟩ := Reference.exists_stands_of_mem_ofText hm
  obtain ⟨-, hstart, hlength⟩ := hb.place
  exact ⟨reference, hm, before, directive, after, hs, hstart.trans hs.start,
    hlength.trans hs.length, hb.blames⟩

/-- In a program that can be built, a diagnostic with a source is at a directive of that source of
the program, for the name that the directive asks for. One without is for a name that the program
starts from, and no source refers to that name that the library or an earlier root leads to. -/
theorem early_diagnostics_blame_first_demand (host : FixedHost) (served : Nat)
    (roots : List String) (options : Options)
    (hb : (host.texts ∩ {name | Reached host options roots name}).encard ≤ served) :
    let program := (Engine.verbatim.build served roots options).value host
    ∀ diagnostic ∈ program.early,
      (∀ source, diagnostic.source = some source →
        source ∈ program.sources ∧ AtDirective host source diagnostic) ∧
      (diagnostic.source = none → ∃ name before, Starts host options roots name before ∧
        Blames host name diagnostic ∧
        (options.noResolve = false → ∀ source, program.LeadsTo host options before source →
          ∀ reference ∈ Reference.ofText source.text,
            host.canonicalName (FileName.normalize
              (FileName.combine (FileName.directoryOf source.name) reference.path)) ≠
                host.canonicalName name)) := by
  intro program diagnostic hd
  let closure := (Closure.ofRoots served roots options).value host
  have hprogram : program = closure.program options :=
    value_build_verbatim host served roots options
  have hwalk : Closure.Walk host options [] (Closure.startDemands options roots) {} _ closure :=
    Closure.walk_ofRoots_of_reached hb
  obtain ⟨hsound, -⟩ := hwalk.sound_of_starts
  rw [hprogram] at hd ⊢
  obtain hd | ⟨front, demand, hfirst⟩ | ⟨source, hs, demand, hm, hblames⟩ := hwalk.origin hd
  · simp at hd
  · obtain ⟨hsite, before, hstarts, hnew⟩ := hfirst.starts hsound
    have hblames := hfirst.blames
    rw [hsite] at hblames
    refine ⟨?_, fun _ => ⟨demand.target, before, hstarts, hblames.blames, hnew⟩⟩
    intro source hs
    rw [hblames.source] at hs
    simp at hs
  · obtain ⟨-, reference, hr, rfl⟩ := SourceText.mem_demands.1 hm
    have hsource : diagnostic.source = some source := hblames.source
    rw [hsource]
    refine ⟨?_, by simp⟩
    rintro _ ⟨⟩
    exact ⟨hs, atDirective_of_blamesAt hr hblames⟩

/-- A source whose directive stands between wide blanks, behind a line that a carriage return ends.
-/
def paddedHost : FixedHost := .serving [("src/a.ts",
  "\u3000// first\r\n\u00A0///<reference path='../src/gone.ts' />\u2003\r\nvar a;\n")]

theorem early_diagnostics_blame_first_demand_padded :
    let options : Options := { defaultLibrary := some "./lib.d.ts" }
    let roots := ["src/a.ts", "src/gone.ts", "./other.ts"]
    let program := (Engine.verbatim.build 1 roots options).value paddedHost
    (paddedHost.texts ∩ {name | Reached paddedHost options roots name}).encard ≤ (1 : Nat) ∧
    program.early.map (fun fault => (fault.source.map SourceText.name, fault.start, fault.length)) =
      [(none, 0, 0), (some "src/a.ts", 15, 38), (none, 0, 0)] ∧
    program.early.map (fun fault => (fault.category, fault.code, fault.message)) =
      [(.error, 6053, "File 'lib.d.ts' not found."),
        (.error, 6053, "File 'src/gone.ts' not found."),
        (.error, 6053, "File 'other.ts' not found.")] ∧
    (∀ fault ∈ program.early, ∀ source, fault.source = some source →
      AtDirective paddedHost source fault) ∧
    ∀ fault ∈ program.early, fault.source = none → ∃ name before,
      Starts paddedHost options roots name before ∧ Blames paddedHost name fault := by
  intro options roots program
  have hb :
      (paddedHost.texts ∩ {name | Reached paddedHost options roots name}).encard ≤ (1 : Nat) :=
    (Set.encard_le_encard Set.inter_subset_left).trans (FixedHost.encard_texts_serving _)
  have hall := early_diagnostics_blame_first_demand paddedHost 1 roots options hb
  refine ⟨hb, by decide +kernel, by decide +kernel,
    fun fault hf source hs => ((hall fault hf).1 source hs).2, ?_⟩
  intro fault hf hs
  obtain ⟨name, before, hstarts, hblames, -⟩ := (hall fault hf).2 hs
  exact ⟨name, before, hstarts, hblames⟩

end ScriptHost
