import Mathlib.Logic.Relation
import ScriptHost.Proofs.Closure.Reached

/-! What a source refers to stands before it in a program, unless that leads back to the source. -/

namespace ScriptHost

/-- Of names that have been read, the text under one asks for the other, or for what is the same to
the host. -/
def Leads (host : FixedHost) (options : Options) (names : Set String) (name target : String) :
    Prop :=
  name ∈ names ∧ target ∈ names ∧ ∃ text, host.read name = .ok (some text) ∧
    ∃ demand ∈ SourceText.demands ⟨name, text⟩ options, demand.key host = host.canonicalName target

/-- A source of a program has a reference to a source of the program, or to what is the same to the
host. -/
def Program.Refers (program : Program) (host : FixedHost) (source target : SourceText) : Prop :=
  source ∈ program.sources ∧ target ∈ program.sources ∧
    ∃ reference ∈ Reference.ofText source.text,
      host.canonicalName (FileName.normalize
        (FileName.combine (FileName.directoryOf source.name) reference.path)) =
          host.canonicalName target.name

namespace Closure

/-- What has been read for a demand of a source that is about to be added: the source itself, a name
without text, the name of a source that stands there already, or one that leads to the source. -/
def Settled (host : FixedHost) (options : Options) (names : Set String) (sources : List SourceText)
    (source : SourceText) (demand : Demand) : Prop :=
  ∃ name ∈ names, host.canonicalName name = demand.key host ∧
    (name = source.name ∨ lacks host name = true ∨ name ∈ sources.map SourceText.name ∨
      Relation.TransGen (Leads host options names) name source.name)

/-- Sources of which each was added when its demands were settled. -/
inductive Ordered (host : FixedHost) (options : Options) (names : Set String) :
    List SourceText → Prop where
  | nil : Ordered host options names []
  | add {sources source} (before : Ordered host options names sources)
      (settled : ∀ demand ∈ source.demands options,
        Settled host options names sources source demand) :
      Ordered host options names (sources ++ [source])

variable {host : FixedHost} {options : Options} {roots : List String} {served : Nat}
  {stack before read : List String} {demand : Demand} {demands : List Demand}
  {closure after : Closure} {name text : String} {sources : List SourceText}
  {source target : SourceText} {names : Set String}

/-- When the references of a source have been followed, each is settled: a name that is still open
is one that led to the source. -/
theorem settled_of_seen (hs : Sound host options roots (source.name :: stack) read closure)
    (hnames : ∀ name ∈ read, name ∈ names)
    (hstack : ∀ name ∈ stack, Relation.TransGen (Leads host options names) name source.name)
    (hd : demand.key host ∈ closure.seen) :
    Settled host options names closure.sources source demand := by
  rw [hs.seen] at hd
  obtain ⟨name, hn, hk⟩ := List.mem_map.1 hd
  refine ⟨name, hnames name hn, hk, ?_⟩
  by_cases hl : lacks host name = true
  · exact .inr (.inl hl)
  · obtain ⟨text, ht⟩ : ∃ text, host.read name = .ok (some text) := by
      simpa [lacks_eq_true_iff] using hl
    by_cases hm : name ∈ source.name :: stack
    · obtain hself | hopen := List.mem_cons.1 hm
      · exact .inl hself
      · exact .inr (.inr (.inr (hstack _ hopen)))
    · have hmem := (hs.mem_sources ⟨name, text⟩).2 ⟨hn, hm, ht⟩
      exact .inr (.inr (.inl (List.mem_map.2 ⟨_, hmem, rfl⟩)))

/-- A walk whose open names all lead to its demands keeps the sources ordered. -/
theorem Walk.ordered (h : Walk host options stack demands closure read after)
    (ho : Open host stack closure) (hs : Sound host options roots stack before closure)
    (hd : ∀ demand ∈ demands, Reached host options roots demand.target)
    (hnames : ∀ name ∈ before ++ read, name ∈ names)
    (hl : ∀ demand ∈ demands, ∀ name ∈ stack, ∀ target ∈ names,
      host.canonicalName target = demand.key host →
        Relation.TransGen (Leads host options names) name target)
    (hord : Ordered host options names closure.sources) :
    Ordered host options names after.sources := by
  induction h generalizing before with
  | done => exact hord
  | known hn rest ih =>
    exact ih ho hs (List.forall_mem_cons.1 hd).2 hnames (List.forall_mem_cons.1 hl).2 hord
  | failed hn hb rest ih =>
    obtain ⟨hfirst, hd⟩ := List.forall_mem_cons.1 hd
    rw [List.append_cons] at hnames
    exact ih (ho.mono (subset_mark _ _)) (hs.blame hn hfirst hb.blames) hd hnames
      (List.forall_mem_cons.1 hl).2 hord
  | @read stack demand demands closure text inner between read after hn ht below rest ihbelow
      ihrest =>
    obtain ⟨hfirst, hd⟩ := List.forall_mem_cons.1 hd
    obtain ⟨hlead, hl⟩ := List.forall_mem_cons.1 hl
    rw [List.append_cons, ← List.append_assoc] at hnames
    have hopened : ∀ name ∈ before ++ [demand.target] ++ inner, name ∈ names :=
      fun name hm => hnames name (List.mem_append_left _ hm)
    have htarget : demand.target ∈ names := hopened _ (by simp)
    have hself : ∀ name ∈ stack, Relation.TransGen (Leads host options names) name demand.target :=
      fun name hname => hlead name hname demand.target htarget rfl
    have hreached : ∀ d ∈ SourceText.demands ⟨demand.target, text⟩ options,
        Reached host options roots d.target :=
      fun d hm => reached_of_mem_demands hfirst ht hm
    have hinnerOrd : Ordered host options names between.sources := by
      refine ihbelow (ho.push hn ht) (hs.push hn hfirst ht) hreached hopened ?_ hord
      intro d hm name hname target ht' hk
      have hstep : Leads host options names demand.target target :=
        ⟨htarget, ht', text, ht, d, hm, hk.symm⟩
      obtain rfl | hname := List.mem_cons.1 hname
      · exact .single hstep
      · exact .tail (hself name hname) hstep
    obtain ⟨hinner, hasked⟩ := below.sound (ho.push hn ht) (hs.push hn hfirst ht) hreached
    obtain ⟨hopen, hadd⟩ := below.complete ho hn ht hinner hasked
    refine ihrest hopen hadd hd hnames hl (.add hinnerOrd ?_)
    intro d hm
    exact settled_of_seen hinner hopened hself (hasked d hm)

theorem ordered_ofRoots (hb : host.texts.encard ≤ served) :
    let task := ofRoots served roots options
    Ordered host options {name | name ∈ task.reads host} (task.value host).sources :=
  (walk_ofRoots hb).ordered (open_nil _) sound_empty
    (fun _ hd => reached_of_mem_startDemands hd) (by simp) (by simp) .nil

/-- In ordered sources, what has been read for a demand of a source is the source, has no text,
stands before it, or leads to it. -/
theorem Ordered.precedes (h : Ordered host options names sources) (hs : source ∈ sources)
    (hd : demand ∈ source.demands options) :
    ∃ name ∈ names, host.canonicalName name = demand.key host ∧
      (name = source.name ∨ lacks host name = true ∨
        (∃ target, target.name = name ∧ [target, source].Sublist sources) ∨
        Relation.TransGen (Leads host options names) name source.name) := by
  induction h with
  | nil => simp at hs
  | @add sources new before settled ih =>
    obtain hs | hs := List.mem_append.1 hs
    · obtain ⟨name, hn, hk, h⟩ := ih hs
      refine ⟨name, hn, hk, h.imp_right (Or.imp_right (Or.imp_left ?_))⟩
      exact fun ⟨target, hname, hsub⟩ =>
        ⟨target, hname, hsub.trans (List.sublist_append_left _ _)⟩
    · obtain rfl := List.mem_singleton.1 hs
      obtain ⟨name, hn, hk, h⟩ := settled demand hd
      refine ⟨name, hn, hk, h.imp_right (Or.imp_right (Or.imp_left fun hm => ?_))⟩
      obtain ⟨target, hm, hname⟩ := List.mem_map.1 hm
      exact ⟨target, hname, (List.singleton_sublist.2 hm).append (.refl [source])⟩

variable {reads : List String}

theorem Sound.refers_of_leads (hs : Sound host options roots [] reads closure)
    (hr : options.noResolve = false) (hm : source ∈ closure.sources)
    (htarget : target ∈ closure.sources)
    (h : Leads host options names source.name target.name) :
    (closure.program options).Refers host source target := by
  obtain ⟨-, -, text, hread, demand, hd, he⟩ := h
  obtain rfl : source.text = text := by
    simpa [((hs.mem_sources source).1 hm).2.2] using hread
  obtain ⟨reference, href, rfl⟩ := List.mem_map.1 hd
  refine ⟨hm, htarget, reference, ?_, he⟩
  simpa [SourceText.followed, hr] using href

/-- Every name on the way from one source of a program to another is that of a source. -/
theorem Sound.transGen_refers (hs : Sound host options roots [] reads closure)
    (hr : options.noResolve = false) (htarget : target ∈ closure.sources)
    (h : Relation.TransGen (Leads host options {name | name ∈ reads}) name target.name) :
    ∀ source ∈ closure.sources, source.name = name →
      Relation.TransGen ((closure.program options).Refers host) source target := by
  induction h using Relation.TransGen.head_induction_on with
  | single h =>
    rintro source hm rfl
    exact .single (hs.refers_of_leads hr hm htarget h)
  | @head name next h htail ih =>
    rintro source hm rfl
    obtain ⟨_, ⟨hn, -, text, ht, -⟩, -⟩ := (Relation.TransGen.head'_iff).1 htail
    have hmem := (hs.mem_sources ⟨next, text⟩).2 ⟨hn, by simp, ht⟩
    exact .head (hs.refers_of_leads hr hm hmem h) (ih _ hmem rfl)

theorem refers_iff_of_sources (hr : options.noResolve = false) :
    (closure.program options).Refers host source target ↔
      source ∈ closure.sources ∧ target ∈ closure.sources ∧
        ∃ demand ∈ source.demands options, demand.key host = host.canonicalName target.name := by
  simp [Program.Refers, SourceText.demands, SourceText.followed, hr, Demand.key, Demand.target,
    Reference.target, program]

theorem Sound.precedes (hs : Sound host options roots [] reads closure)
    (hr : options.noResolve = false)
    (hord : Ordered host options {name | name ∈ reads} closure.sources)
    (h : (closure.program options).Refers host source target) (hne : source ≠ target) :
    [target, source].Sublist closure.sources ∨
      Relation.TransGen ((closure.program options).Refers host) target source := by
  obtain ⟨hsource, htarget, demand, hd, he⟩ := (refers_iff_of_sources hr).1 h
  have hinj := List.inj_on_of_nodup_map hs.sources_nodup
  obtain ⟨hread, -, htext⟩ := (hs.mem_sources target).1 htarget
  obtain ⟨name, hn, hk, hcases⟩ := hord.precedes hsource hd
  -- What has been read for the demand is the target: nothing else that has been read is the same.
  obtain rfl : name = target.name := hs.eq_of_canonicalName hn hread (hk.trans he)
  obtain hself | hl | ⟨other, hother, hsub⟩ | hleads := hcases
  · exact (hne (hinj hsource htarget hself.symm)).elim
  · exact (lacks_eq_true_iff.1 hl _ htext).elim
  · have hm : other ∈ closure.sources := hsub.subset (by simp)
    exact .inl (hinj hm htarget hother ▸ hsub)
  · exact .inr (hs.transGen_refers hr hsource hleads target htarget rfl)

end Closure

/-- In a list without repetitions, standing before another element is transitive. -/
theorem sublist_pair_trans {α : Type} {items : List α} {a b c : α} (hn : items.Nodup)
    (hab : [a, b].Sublist items) (hbc : [b, c].Sublist items) : [a, c].Sublist items := by
  obtain ⟨front, back, rfl, ha, hb⟩ := List.cons_sublist_iff.1 hab
  obtain ⟨front', back', he, hb', hc⟩ := List.cons_sublist_iff.1 hbc
  obtain ⟨between, hfront, hback⟩ | ⟨between, hfront, hback⟩ := List.append_eq_append_iff.1 he
  · have hc : [c].Sublist back := hback ▸ hc.trans (List.sublist_append_right _ _)
    exact (List.singleton_sublist.2 ha).append hc
  · have hb'' : b ∈ front := hfront ▸ List.mem_append_left _ hb'
    exact ((List.nodup_append.1 hn).2.2 b hb'' b (List.singleton_sublist.1 hb) rfl).elim

/-- Without cycles, standing first carries over from references to chains of them. -/
theorem sublist_of_transGen {refers : SourceText → SourceText → Prop} {sources : List SourceText}
    {source target : SourceText} (hn : sources.Nodup)
    (hacyclic : ∀ source target, Relation.TransGen refers source target →
      Relation.TransGen refers target source → source = target)
    (hfirst : ∀ source target, refers source target → source ≠ target →
      [target, source].Sublist sources ∨ Relation.TransGen refers target source)
    (h : Relation.TransGen refers source target) (hne : source ≠ target) :
    [target, source].Sublist sources := by
  have hstep (source target : SourceText) (h : refers source target)
      (hne : source ≠ target) : [target, source].Sublist sources := by
    obtain hsub | hback := hfirst source target h hne
    · exact hsub
    · exact (hne (hacyclic source target (.single h) hback)).elim
  induction h with
  | single h => exact hstep _ _ h hne
  | @tail between target hto h ih =>
    by_cases hs : source = between
    · exact hs ▸ hstep _ _ h (hs ▸ hne)
    · by_cases ht : between = target
      · exact ht ▸ ih hs
      · exact sublist_pair_trans hn (hstep _ _ h ht) (ih hs)

/-- The sources of an output one after another, and what stands behind them. -/
theorem Target.text_eq (target : Target) (newLine : String) (sourceMap : Bool) :
    target.text newLine sourceMap =
      String.join (target.sources.map fun source => terminated newLine source.text) ++
        if sourceMap then target.trailer newLine else "" := by
  cases sourceMap with
  | false => exact String.append_empty.symm
  | true => rfl

theorem asks_emitProgram_of_out {host : FixedHost} {options : Options} {out : String}
    {sources : List SourceText} (ho : options.out = some out)
    (hs : (sources.filter fun source => !source.isDeclaration) ≠ []) :
    let target : Target := ⟨out, sources.filter fun source => !source.isDeclaration⟩
    ∃ rest, (emitProgram options sources).asks host = .query .newLine ::
      .write out (target.text host.newLine options.sourceMap) false :: rest := by
  intro target
  have ht : Target.ofProgram options sources = [target] := by
    simp [Target.ofProgram, ho, hs, target]
  rw [emitProgram, ht, Target.emitAll, Task.asks_bind]
  exact ⟨_, rfl⟩

/-- Of two sources, the one that the other refers to stands first, unless it leads back to the
other. Without such cycles the sources, and what of them is written to one output, are in
topological order. -/
theorem referenced_sources_first (host : FixedHost) (served : Nat) (roots : List String)
    (options : Options) (hb : host.texts.encard ≤ served) (hr : options.noResolve = false) :
    let program := (Engine.verbatim.build served roots options).value host
    let refers := program.Refers host
    let emitted := program.sources.filter fun source => !source.isDeclaration
    program.sources.Nodup ∧
    (∀ source target, refers source target → source ≠ target →
      [target, source].Sublist program.sources ∨ Relation.TransGen refers target source) ∧
    ((∀ source target, Relation.TransGen refers source target →
        Relation.TransGen refers target source → source = target) →
      ∀ source target, Relation.TransGen refers source target → source ≠ target →
        [target, source].Sublist program.sources ∧
          (source ∈ emitted → target ∈ emitted → [target, source].Sublist emitted)) ∧
    ∀ out full, options.out = some out → emitted ≠ [] →
      ∃ trailer rest, (program.checker full).emit.asks host = .query .newLine ::
        .write out (String.join (emitted.map fun source =>
          Target.terminated host.newLine source.text) ++ trailer) false :: rest := by
  intro program refers emitted
  let closure := (Closure.ofRoots served roots options).value host
  have hprogram : program = closure.program options :=
    value_build_verbatim host served roots options
  obtain ⟨hsound, -⟩ := Closure.sound_ofRoots hb roots options
  have hnodup : program.sources.Nodup := by
    rw [hprogram]
    exact List.Nodup.of_map _ hsound.sources_nodup
  have hfirst (source target : SourceText) (h : refers source target)
      (hne : source ≠ target) : [target, source].Sublist program.sources ∨
        Relation.TransGen refers target source := by
    simp only [refers, hprogram] at h ⊢
    exact hsound.precedes hr (Closure.ordered_ofRoots hb) h hne
  refine ⟨hnodup, hfirst, ?_, ?_⟩
  · intro hacyclic source target h hne
    have hsub : [target, source].Sublist program.sources :=
      sublist_of_transGen hnodup hacyclic hfirst h hne
    refine ⟨hsub, fun hsource htarget => ?_⟩
    have := hsub.filter fun source => !source.isDeclaration
    simpa [(List.mem_filter.1 hsource).2, (List.mem_filter.1 htarget).2] using this
  · intro out full ho he
    have hemit : (program.checker full).emit = emitProgram options program.sources := by
      rw [hprogram]
      rfl
    obtain ⟨rest, hasks⟩ := asks_emitProgram_of_out ho he
    rw [hemit, hasks, Target.text_eq]
    exact ⟨_, rest, rfl⟩

/-- A program whose sources have more references than those that they refer to has no cycle. -/
theorem Program.acyclic_of_references {program : Program} {host : FixedHost}
    (h : ∀ source ∈ program.sources, ∀ target ∈ program.sources,
      (∃ reference ∈ Reference.ofText source.text,
        host.canonicalName (FileName.normalize (reference.target source)) =
          host.canonicalName target.name) →
      (Reference.ofText target.text).length < (Reference.ofText source.text).length)
    (source target : SourceText) (hto : Relation.TransGen (program.Refers host) source target)
    (hback : Relation.TransGen (program.Refers host) target source) : source = target := by
  have hless {a b : SourceText} (h' : Relation.TransGen (program.Refers host) a b) :
      (Reference.ofText b.text).length < (Reference.ofText a.text).length := by
    induction h' with
    | single hs => exact h _ hs.1 _ hs.2.1 hs.2.2
    | tail _ hs ih => exact (h _ hs.1 _ hs.2.1 hs.2.2).trans ih
  have := hless hto
  have := hless hback
  omega

/-- A source over two others, one of which declares and refers to the last one too. The source
refers to the last one by a name that is another one, but the same to the host. -/
def layeredHost : FixedHost :=
  { FixedHost.serving [
      ("c.ts", "///<reference path='b.d.ts'/>\n///<reference path='A.ts'/>\nrun();"),
      ("b.d.ts", "///<reference path='./a.ts'/>\n"),
      ("a.ts", "var a;\n")] with
    canonicalName := fun name => if name = "A.ts" then "a.ts" else name
    caseSensitive := false }

theorem referenced_sources_first_layered :
    let options : Options := { out := some "all.js" }
    let program := (Engine.verbatim.build 3 ["c.ts", "a.ts"] options).value layeredHost
    let refers := program.Refers layeredHost
    layeredHost.texts.encard ≤ (3 : Nat) ∧ options.noResolve = false ∧
    (∀ source target, Relation.TransGen refers source target →
      Relation.TransGen refers target source → source = target) ∧
    program.sources.map SourceText.name = ["a.ts", "b.d.ts", "c.ts"] ∧
    ∀ source target, refers source target → source ≠ target →
      [target, source].Sublist program.sources := by
  intro options program refers
  have hb : layeredHost.texts.encard ≤ (3 : Nat) := FixedHost.encard_texts_serving _
  have hacyclic : ∀ source target, Relation.TransGen refers source target →
      Relation.TransGen refers target source → source = target :=
    Program.acyclic_of_references (by decide +kernel)
  obtain ⟨-, -, hsorted, -⟩ :=
    referenced_sources_first layeredHost 3 ["c.ts", "a.ts"] options hb rfl
  exact ⟨hb, rfl, hacyclic, by decide +kernel,
    fun source target h hne => (hsorted hacyclic _ _ (.single h) hne).1⟩

end ScriptHost
