import ScriptHost.Proofs.Closure.Serve
import ScriptHost.Proofs.FileName.Below
import ScriptHost.Proofs.Host.Server
import ScriptHost.Proofs.Host.Writing

/-! The output directory: under which names the outputs of sources are put behind it, and which of
them lie below it. -/

namespace ScriptHost

namespace FileName

/-- The name of an output as it is put behind an output directory: without its directories if it has
a root. -/
def placed (output : List Char) : List Char := if root output = [] then output else basePart output

/-- Whether a name leads below a directory that it is seen from. A name with a root of its own leads
there only if the directory is no more than that root. -/
def LeadsBelow (directory name : List Char) : Prop :=
  if root name = [] then StaysBelow directory name
  else normalForm directory = root name ∧ root (slashed directory) = root name

variable {cs stem ending directory name segment : List Char} {segments : List (List Char)}
  {rooted : Bool} {c : Char}

theorem withoutEnding?_eq_some (h : withoutEnding? ending cs = some stem) : cs = stem ++ ending := by
  obtain ⟨rest, hr, rfl⟩ := Option.map_eq_some_iff.1 h
  have hc := List.isPrefixOf?_eq_some_iff_append_eq.1 hr
  rw [← List.reverse_reverse cs, ← hc, List.reverse_append, List.reverse_reverse]

/-- The endings that the name of an output does without. -/
structure Dotted (ending : List Char) : Prop where
  dot : ending = [] ∨ ending.head? = some '.'
  slash : '/' ∉ ending

theorem dotted_scriptEnding : Dotted scriptEnding := by
  constructor <;> decide

theorem exists_stem (source : String) :
    ∃ stem ending, Dotted ending ∧ source.toList = stem ++ ending ∧
      (scriptName source).toList = stem ++ scriptEnding := by
  have hn : (scriptName source).toList = _ ++ scriptEnding := String.toList_ofList
  rw [hn]
  cases hx : withoutEnding? ".tsx".toList source.toList with
  | some stem =>
    exact ⟨stem, _, ⟨.inr rfl, by decide⟩, withoutEnding?_eq_some hx, rfl⟩
  | none =>
    cases ht : withoutEnding? ".ts".toList source.toList with
    | some stem => exact ⟨stem, _, ⟨.inr rfl, by decide⟩, withoutEnding?_eq_some ht, rfl⟩
    | none => exact ⟨source.toList, [], ⟨.inl rfl, by simp⟩, (List.append_nil _).symm, rfl⟩

/-- An ending does not matter for the root. -/
theorem root_append_dotted (h : Dotted ending) : root (stem ++ ending) = [] ↔ root stem = [] := by
  obtain ⟨rfl | hd, -⟩ := h
  · rw [List.append_nil]
  obtain ⟨tail, rfl⟩ := List.head?_eq_some_iff.1 hd
  match stem with
  | [] =>
    refine iff_of_true ?_ rfl
    cases tail with
    | nil => rfl
    | cons d tail => exact root_cons_cons_eq_nil_iff.2 ⟨by decide, fun h => absurd h.1 (by decide)⟩
  | [c] =>
    rw [List.singleton_append, root_cons_cons_eq_nil_iff]
    constructor
    · rintro ⟨hc, -⟩
      simp [root, splitRoot, hc]
    · rintro hc
      refine ⟨?_, by simp⟩
      rintro rfl
      exact root_slash_ne_nil [] hc
  | c :: d :: more =>
    rw [List.cons_append, List.cons_append, root_cons_cons_eq_nil_iff, root_cons_cons_eq_nil_iff]

/-- A normal form without a root is made of its segments. -/
theorem normalForm_eq_join (h : root (normalForm cs) = []) :
    ∃ segments, Normalized false segments ∧ normalForm cs = join segments := by
  have hr : root (slashed cs) = [] := by
    by_contra hn
    rw [← normalForm_slashed, root_normalForm (backslash_not_mem_slashed cs) hn] at h
    exact hn h
  have hinside := normalized_inside (slashed cs)
  rw [hr] at hinside
  exact ⟨inside (slashed cs), hinside, by rw [normalForm_eq, hr, List.nil_append]⟩

theorem join_concat_append (segments : List (List Char)) (segment more : List Char) :
    join (segments ++ [segment ++ more]) = join (segments ++ [segment]) ++ more := by
  cases segments with
  | nil => simp [join_singleton]
  | cons first others => simp [join_cons, List.flatMap_append]

theorem Normalized.concat_script (h : Normalized rooted segments) (hs : scriptEnding <:+ segment)
    (hw : '/' ∉ segment) : Normalized rooted (segments ++ [segment]) :=
  h.concat ⟨plain_scriptEnding.busy hs, hw⟩ fun hu => absurd hu (plain_scriptEnding.ne_up hs)

/-- The output of a name made of segments has a last segment of its own. -/
theorem exists_join_eq (hn : Normalized false segments) (h : join segments = stem ++ ending)
    (he : '/' ∉ ending) :
    ∃ others, stem ++ scriptEnding = join others ∧ Normalized false others ∧ settled others ≠ [] := by
  obtain ⟨front, last, hw, hf, hstem⟩ : ∃ front last, '/' ∉ last ∧ Normalized false front ∧
      stem = join (front ++ [last]) := by
    rcases List.eq_nil_or_concat segments with rfl | ⟨front, last, rfl⟩
    · obtain ⟨rfl, -⟩ := List.append_eq_nil_iff.1 h.symm
      exact ⟨[], [], List.not_mem_nil, normalized_nil false, rfl⟩
    · rw [List.concat_eq_append] at h hn
      obtain ⟨before, hj, hb⟩ := join_concat front last
      have hsuffix : ending <:+ last :=
        suffix_of_append before (hj ▸ ⟨stem, h.symm⟩) fun c hc => hb c hc ▸ he
      obtain ⟨kept, rfl⟩ := hsuffix
      rw [join_concat_append] at h
      have hw := (hn.proper (kept ++ ending) (by simp)).whole
      exact ⟨front, kept, fun hm => hw (List.mem_append_left _ hm), hn.of_append,
        (List.append_cancel_right h).symm⟩
  have hscript : scriptEnding <:+ last ++ scriptEnding := List.suffix_append _ _
  have hwhole : '/' ∉ last ++ scriptEnding := by
    intro hm
    rcases List.mem_append.1 hm with hm | hm
    · exact hw hm
    · exact plain_scriptEnding.slash hm
  refine ⟨front ++ [last ++ scriptEnding], ?_, hf.concat_script hscript hwhole, fun hs => ?_⟩
  · rw [join_concat_append, hstem]
  · have hall := List.dropWhile_eq_nil_iff.1 hs (last ++ scriptEnding) (by simp)
    exact plain_scriptEnding.ne_up hscript (by simpa using hall)

theorem slash_not_mem_basePart (cs : List Char) : '/' ∉ basePart cs := by
  intro hm
  have h := List.mem_takeWhile_imp (List.mem_reverse.1 hm)
  simp at h

theorem mem_of_mem_basePart (h : c ∈ basePart cs) : c ∈ cs :=
  List.mem_reverse.1 ((List.takeWhile_prefix _).subset (List.mem_reverse.1 h))

/-- An output that is one segment behind a drive has its own normal form. -/
theorem normalForm_of_drive_segment (hr : root name ≠ []) (hw : '/' ∉ name) (hb : slashed name = name)
    (hs : scriptEnding <:+ name) :
    ∃ drive rest, name = drive :: ':' :: rest ∧ root name = [drive, ':'] ∧ scriptEnding <:+ rest ∧
      normalForm name = name := by
  have hrooting := rooting_of_root_ne_nil hr
  generalize root name = start at hr hrooting
  generalize (splitRoot name).2 = rest at hrooting
  cases hrooting with
  | slash | server | bare | drive => simp at hw
  | @relative drive _ ha hh =>
    have hroot : Rooting (drive :: ':' :: rest) [drive, ':'] rest := .relative ha hh
    have hrest : scriptEnding <:+ rest :=
      suffix_of_append [drive, ':'] hs fun c hc => by
        obtain rfl : ':' = c := by simpa using hc
        exact plain_scriptEnding.colon
    have hwr : '/' ∉ rest := fun hm => hw (by simp [hm])
    have hone : Normalized true [rest] := (normalized_nil true).concat_script hrest hwr
    refine ⟨drive, rest, rfl, rfl, hrest, ?_⟩
    have hresolve := resolve_join hone
    rw [join_singleton] at hresolve
    rw [normalForm_of_rooting (hb.symm ▸ hroot), hresolve, join_singleton]
    rfl

/-- A name behind a drive lies below a directory just if the directory is that drive. -/
theorem liesBelow_of_drive_segment (hr : root name ≠ []) (hw : '/' ∉ name)
    (hb : slashed name = name) (hs : scriptEnding <:+ name) (hd : normalForm directory ≠ []) :
    LiesBelow directory name ↔
      normalForm directory = root name ∧ root (slashed directory) = root name := by
  obtain ⟨drive, rest, rfl, hroot, hrest, -⟩ := normalForm_of_drive_segment hr hw hb hs
  rw [hroot]
  constructor
  · rintro ⟨more, he, -, -⟩
    have hbare : normalForm directory = root (slashed directory) := by
      by_contra hne
      rw [separator, if_neg hne] at he
      exact hw (by simp [he])
    have hstart := rooting_of_root_ne_nil (hbare ▸ hd)
    rw [← hbare, and_self]
    rw [separator, if_pos hbare, List.append_nil] at he
    rw [← hbare] at hstart
    generalize normalForm directory = start at he hstart
    generalize slashed directory = cs at hstart
    generalize (splitRoot cs).2 = tail at hstart
    cases hstart with
    | slash | server | bare | drive => simp [he] at hw
    | relative =>
      obtain ⟨rfl, -⟩ := List.cons.inj he
      rfl
  · rintro ⟨hn, hsl⟩
    have hfirst : rest.takeWhile (· != '/') = rest :=
      List.takeWhile_eq_self_iff.2 (ne_slash_of_not_mem fun hm => hw (by simp [hm]))
    refine ⟨rest, ?_, ?_, ?_⟩
    · rw [separator, if_pos (hn.trans hsl.symm), hn]
      rfl
    · rw [hfirst]
      rintro rfl
      simp [scriptEnding] at hrest
    · rw [hfirst]
      exact plain_scriptEnding.ne_up hrest

theorem backslash_not_mem_scriptName (spelling : String) :
    '\\' ∉ (scriptName (normalize spelling)).toList := by
  obtain ⟨stem, ending, -, hsource, hscript⟩ := exists_stem (normalize spelling)
  have hform : (normalize spelling).toList = normalForm spelling.toList := String.toList_ofList
  rw [hscript]
  intro hm
  rcases List.mem_append.1 hm with hm | hm
  · refine backslash_not_mem_slashed (normalForm spelling.toList) ?_
    rw [slashed_normalForm, ← hform, hsource]
    exact List.mem_append_left _ hm
  · exact plain_scriptEnding.backslash hm

/-- An output without a root is made of its segments, and the last of them does not climb. -/
theorem exists_scriptName_eq_join {spelling : String}
    (hr : root (scriptName (normalize spelling)).toList = []) :
    ∃ others, (scriptName (normalize spelling)).toList = join others ∧ Normalized false others ∧
      settled others ≠ [] := by
  obtain ⟨stem, ending, hdotted, hsource, hscript⟩ := exists_stem (normalize spelling)
  have hform : (normalize spelling).toList = normalForm spelling.toList := String.toList_ofList
  rw [hform] at hsource
  have hroot : root (normalForm spelling.toList) = [] := by
    rw [hsource, root_append_dotted hdotted, ← root_append_dotted dotted_scriptEnding, ← hscript]
    exact hr
  obtain ⟨segments, hsegments, hj⟩ := normalForm_eq_join hroot
  rw [hscript]
  exact exists_join_eq hsegments (hj.symm.trans hsource) hdotted.slash

/-- An output lies below its directory just if the name that is put behind the directory leads
there. -/
theorem liesBelow_combined_placed_iff {source : String} (hs : ∃ spelling, normalize spelling = source)
    (hd : normalForm directory ≠ []) :
    LiesBelow directory (combined directory (placed (scriptName source).toList)) ↔
      LeadsBelow directory (placed (scriptName source).toList) := by
  obtain ⟨spelling, rfl⟩ := hs
  have hb := backslash_not_mem_scriptName spelling
  have hsuffix := suffix_scriptName (normalize spelling)
  by_cases hr : root (scriptName (normalize spelling)).toList = []
  · obtain ⟨others, hothers, hnormal, hlast⟩ := exists_scriptName_eq_join hr
    rw [placed, if_pos hr, LeadsBelow, if_pos hr]
    refine liesBelow_combined_iff hd hr (slashed_of_not_mem hb) hothers hnormal ?_
    rwa [hothers, onward_join hnormal]
  · rw [placed, if_neg hr]
    generalize (scriptName (normalize spelling)).toList = output at hb hsuffix
    have hw := slash_not_mem_basePart output
    have hbase : slashed (basePart output) = basePart output :=
      slashed_of_not_mem fun hm => hb (mem_of_mem_basePart hm)
    have hscriptBase := suffix_basePart plain_scriptEnding.slash hsuffix
    by_cases hbr : root (basePart output) = []
    · rw [LeadsBelow, if_pos hbr]
      have hup := plain_scriptEnding.ne_up hscriptBase
      have hone : Normalized false [basePart output] :=
        (normalized_nil false).concat_script hscriptBase hw
      have hj : basePart output = join [basePart output] := (join_singleton _).symm
      refine liesBelow_combined_iff hd hbr hbase hj hone ?_
      rw [hj, onward_join hone, settled, List.dropWhile_cons_of_neg (by simpa using hup)]
      simp
    · rw [LeadsBelow, if_neg hbr, combined_of_rooted hbr]
      obtain ⟨-, -, -, -, -, hself⟩ := normalForm_of_drive_segment hbr hw hbase hscriptBase
      rw [hself, liesBelow_of_drive_segment hbr hw hbase hscriptBase hd]

theorem getLast?_separator (hd : normalForm directory ≠ []) :
    ∃ c, (normalForm directory ++ separator directory).getLast? = some c ∧ (c = '/' ∨ c = ':') := by
  unfold separator
  split
  case isTrue h =>
    obtain ⟨front, c, hc⟩ := (List.eq_nil_or_concat (normalForm directory)).resolve_left hd
    have hl : (normalForm directory).getLast? = some c := by simp [hc]
    have hroot : (splitRoot (slashed directory)).1.getLast? = some c := hl ▸ congrArg _ h.symm
    exact ⟨c, by simp [hl], getLast?_root hroot⟩
  case isFalse => exact ⟨'/', List.getLast?_concat, .inl rfl⟩

/-- The ending of source maps. -/
def mapEnding : List Char := ['.', 'm', 'a', 'p']

theorem plain_mapEnding : Plain mapEnding := by
  constructor <;> decide

theorem Plain.ne_nil (he : Plain ending) (h : ending <:+ cs) : cs ≠ [] := by
  rintro rfl
  have hlong := he.long
  simp [List.suffix_nil.1 h] at hlong

theorem takeWhile_append_plain_iff (he : Plain ending) (hs : scriptEnding <:+ cs) :
    (cs ++ ending).takeWhile (· != '/') ≠ [] ∧ (cs ++ ending).takeWhile (· != '/') ≠ up ↔
      cs.takeWhile (· != '/') ≠ [] ∧ cs.takeWhile (· != '/') ≠ up := by
  rw [List.takeWhile_append]
  split
  case isTrue h =>
    have hends : ending <:+ cs ++ ending.takeWhile (· != '/') := by
      rw [List.takeWhile_eq_self_iff.2 (ne_slash_of_not_mem he.slash)]
      exact List.suffix_append _ _
    rw [(List.takeWhile_prefix _).eq_of_length h]
    exact iff_of_true ⟨he.ne_nil hends, he.ne_up hends⟩
      ⟨plain_scriptEnding.ne_nil hs, plain_scriptEnding.ne_up hs⟩
  case isFalse => exact Iff.rfl

/-- The source map of an output lies where the output lies. -/
theorem liesBelow_append_map_iff (hs : scriptEnding <:+ name) (hd : normalForm directory ≠ []) :
    LiesBelow directory (name ++ mapEnding) ↔ LiesBelow directory name := by
  obtain ⟨c, hlast, hc⟩ := getLast?_separator hd
  -- Neither ending reaches over the end of the directory.
  have hreach {ending rest : List Char}
      (he : ending <:+ normalForm directory ++ separator directory ++ rest) (hn : c ∉ ending) :
      ending <:+ rest :=
    suffix_of_append _ he fun d hd => Option.some.inj (hlast.symm.trans hd) ▸ hn
  have hscript : c ∉ scriptEnding := by rcases hc with rfl | rfl <;> decide
  have hmap : c ∉ mapEnding := by rcases hc with rfl | rfl <;> decide
  constructor
  · rintro ⟨more, he, hfirst⟩
    obtain ⟨rest, rfl⟩ := hreach (he ▸ List.suffix_append name mapEnding) hmap
    rw [← List.append_assoc] at he
    obtain rfl := List.append_cancel_right he
    exact ⟨rest, rfl, (takeWhile_append_plain_iff plain_mapEnding (hreach hs hscript)).1 hfirst⟩
  · rintro ⟨rest, rfl, hfirst⟩
    exact ⟨rest ++ mapEnding, List.append_assoc _ _ _,
      (takeWhile_append_plain_iff plain_mapEnding (hreach hs hscript)).2 hfirst⟩

/-- A name that does not climb leads below every directory but a root that a slash makes another
root of. -/
theorem staysBelow_of_climb_eq_zero (hc : climb name = 0) (hn : onward name ≠ [])
    (hd : ¬ BackslashRoot directory) (hs : slashed directory ≠ '/' :: '/' :: up) :
    StaysBelow directory name where
  reach _ := hc ▸ Nat.zero_le _
  enters := by rw [hc, Nat.sub_zero, List.drop_length]; exact List.nil_prefix
  further := by rw [hc, Nat.sub_zero, List.drop_length]; exact hn.symm
  root := hd
  server := hs
  bare _ := hc

end FileName

namespace Target

/-- The names that are written for a source: that of its output, and that of its source map. -/
def namesFor (options : Options) (source : SourceText) : List String :=
  let name := nameFor source.name options.outDir
  name :: if options.sourceMap then [name ++ ".map"] else []

end Target

variable {State : Type} {directory : String}

/-- The name of an output below an output directory. -/
theorem Target.toList_nameFor (source directory : String) :
    (Target.nameFor source (some directory)).toList =
      FileName.combined directory.toList (FileName.placed (FileName.scriptName source).toList) := by
  unfold Target.nameFor FileName.placed
  by_cases hr : FileName.root (FileName.scriptName source).toList = []
  · simp [FileName.isRooted, hr, FileName.combine]
  · simp [FileName.isRooted, hr, FileName.combine, FileName.base]

theorem names_attempts_emit (server : Server State) (sourceMap : Bool) (target : Target)
    (state : State) :
    (server.attempts (target.emit sourceMap) state).map Attempt.name = target.names sourceMap := by
  cases sourceMap <;> rfl

/-- However a host ends lines, and whatever becomes of writes, all outputs are attempted. -/
theorem names_attempts_emitAll (server : Server State) (sourceMap : Bool) (targets : List Target)
    (state : State) :
    (server.attempts (Target.emitAll sourceMap targets) state).map Attempt.name =
      targets.flatMap (Target.names sourceMap) := by
  induction targets generalizing state with
  | nil => rfl
  | cons target targets ih =>
    rw [Target.emitAll, Server.attempts_bind, Server.attempts_bind, Server.attempts,
      List.append_nil, List.map_append, names_attempts_emit, ih, List.flatMap_cons]

theorem names_ofProgram {options : Options} (ho : options.out = none) (sources : List SourceText) :
    (Target.ofProgram options sources).flatMap (Target.names options.sourceMap) =
      (sources.filter (!·.isDeclaration)).flatMap (Target.namesFor options) := by
  rw [Target.ofProgram, ho, List.flatMap_map]
  rfl

theorem liesBelow_nameFor_iff {source : String} (hs : ∃ spelling, FileName.normalize spelling = source)
    (hd : FileName.normalize directory ≠ "") :
    FileName.LiesBelow directory.toList (Target.nameFor source (some directory)).toList ↔
      FileName.LeadsBelow directory.toList
        (FileName.placed (FileName.scriptName source).toList) := by
  have hn : FileName.normalForm directory.toList ≠ [] := by
    rintro hn
    exact hd (by rw [FileName.normalize, hn])
  rw [Target.toList_nameFor]
  exact FileName.liesBelow_combined_placed_iff hs hn

/-- Each output of a program is put behind the output directory, together with its source map. They
lie below the directory just if the name of the source without its root leads there: it must not
climb out of the directory, unless it enters again what it has climbed out of. -/
theorem outputs_below_directory_iff (host : Host) (disk : Disk) (roots : List String)
    (options : Options) (directory : String) (ho : options.out = none)
    (hdir : options.outDir = some directory) (hd : FileName.normalize directory ≠ "")
    (server : Server State) (state : State) (full : Bool) :
    let program := (host.serve (Engine.verbatim.build host.served roots options) disk).answer
    let emitted := program.sources.filter fun source => !source.isDeclaration
    let attempts := server.attempts (program.checker full).emit state
    attempts.map Attempt.name = emitted.flatMap (Target.namesFor options) ∧
    ∀ source ∈ emitted, ∀ name ∈ Target.namesFor options source,
      (FileName.LiesBelow directory.toList name.toList ↔
        FileName.LeadsBelow directory.toList
          (FileName.placed (FileName.scriptName source.name).toList)) := by
  intro program emitted attempts
  have hprogram : program =
      ((Closure.ofRoots host.served roots options).value (host.answers disk)).program options :=
    congrArg Host.Served.answer (serve_build_verbatim host disk _ roots options)
  obtain ⟨hsound, -⟩ := sound_closure_of_host host disk roots options
  have hsources : program.sources =
      ((Closure.ofRoots host.served roots options).value (host.answers disk)).sources :=
    congrArg Program.sources hprogram
  constructor
  · have hnames := names_attempts_emitAll server options.sourceMap
      (Target.ofProgram options program.sources) state
    rw [names_ofProgram ho] at hnames
    rw [← hnames, hsources]
    exact congrArg _ (congrArg (fun p : Program => server.attempts (p.checker full).emit state) hprogram)
  · intro source hm name hname
    have hreached := hsound.reached source.name
      ((hsound.mem_sources source).1 (hsources ▸ List.mem_of_mem_filter hm)).1
    have hoff := liesBelow_nameFor_iff hreached.exists_normalize_eq hd
    rw [Target.namesFor, hdir] at hname
    rcases List.mem_cons.1 hname with rfl | hmap
    · exact hoff
    · obtain rfl : name = Target.nameFor source.name (some directory) ++ ".map" := by
        split at hmap
        · exact List.mem_singleton.1 hmap
        · simp at hmap
      rw [String.toList_append, ← hoff]
      refine FileName.liesBelow_append_map_iff (suffix_nameFor _ _) fun hn => hd ?_
      rw [FileName.normalize, hn]

/-- A source above the current directory, one below it and one with a root, with source maps. -/
theorem outputs_below_directory_scattered :
    let disk : Disk := ⟨.directory [], .root⟩
    let host : Host := {
      configuration := {}, read := .strings false, write := .string
      sources := .ofList [("../x.ts", "var x;"), ("a/ship.ts", "var a;"), ("/abs/b.ts", "var b;")]
      sourceNames := ["../x.ts", "a/ship.ts", "/abs/b.ts"] }
    let options : Options := { outDir := some "build", sourceMap := true }
    let program := (host.serve
      (Engine.verbatim.build host.served host.sourceNames options) disk).answer
    let attempts := Host.server.attempts (program.checker true).emit (host, disk)
    options.out = none ∧ options.outDir = some "build" ∧ FileName.normalize "build" ≠ "" ∧
    attempts.map Attempt.name = ["x.js", "x.js.map", "build/a/ship.js", "build/a/ship.js.map",
      "build/b.js", "build/b.js.map"] ∧
    ¬ FileName.LiesBelow "build".toList "x.js.map".toList ∧
    FileName.LiesBelow "build".toList "build/a/ship.js".toList ∧
    FileName.LiesBelow "build".toList "build/b.js.map".toList := by
  intro disk host options program attempts
  have hd : FileName.normalize "build" ≠ "" := by decide
  obtain ⟨hnames, hbelow⟩ := outputs_below_directory_iff host disk host.sourceNames
    options "build" rfl rfl hd Host.server (host, disk) true
  have hemitted : (program.sources.filter fun source => !source.isDeclaration) =
      [⟨"../x.ts", "var x;"⟩, ⟨"a/ship.ts", "var a;"⟩, ⟨"/abs/b.ts", "var b;"⟩] := by decide +kernel
  rw [hemitted] at hnames hbelow
  have hstays {name : List Char} (hr : FileName.root name = [])
      (hc : FileName.climb name = 0) (hn : FileName.onward name ≠ []) :
      FileName.LeadsBelow "build".toList name := by
    rw [FileName.LeadsBelow, if_pos hr]
    exact FileName.staysBelow_of_climb_eq_zero hc hn (by simp [FileName.BackslashRoot]) (by decide)
  have hwritten : attempts.map Attempt.name = ["x.js", "x.js.map", "build/a/ship.js",
      "build/a/ship.js.map", "build/b.js", "build/b.js.map"] := by
    rw [hnames]
    decide +kernel
  refine ⟨rfl, rfl, hd, hwritten, ?_, ?_, ?_⟩
  · rw [hbelow ⟨"../x.ts", "var x;"⟩ (by simp) "x.js.map" (by decide +kernel), FileName.LeadsBelow,
      if_pos (by decide +kernel)]
    exact fun h => absurd h.enters (by decide +kernel)
  · exact (hbelow ⟨"a/ship.ts", "var a;"⟩ (by simp) "build/a/ship.js" (by decide +kernel)).2
      (hstays (by decide +kernel) (by decide +kernel) (by decide +kernel))
  · exact (hbelow ⟨"/abs/b.ts", "var b;"⟩ (by simp) "build/b.js.map" (by decide +kernel)).2
      (hstays (by decide +kernel) (by decide +kernel) (by decide +kernel))

/-- A source above the current directory is written beside the output directory and not into it. -/
theorem climbing_source_leaves_directory :
    let disk : Disk := ⟨.directory [], .root⟩
    let host : Host := {
      configuration := {}, read := .strings false, write := .string
      sources := .ofList [("../x.ts", "var x;")], sourceNames := ["../x.ts"] }
    let options : Options := { outDir := some "build" }
    let program := (host.serve (Engine.verbatim.build host.served ["../x.ts"] options) disk).answer
    let attempts := Host.server.attempts (program.checker true).emit (host, disk)
    FileName.normalize "build" ≠ "" ∧ attempts.map Attempt.name = ["x.js"] ∧
      ¬ FileName.LiesBelow "build".toList "x.js".toList := by
  intro disk host options program attempts
  refine ⟨by decide, by decide +kernel, ?_⟩
  rintro ⟨rest, he, -, -⟩
  have hp : FileName.normalForm "build".toList <+: "x.js".toList := by
    rw [he, List.append_assoc]
    exact List.prefix_append _ _
  exact absurd hp (by decide)

end ScriptHost
