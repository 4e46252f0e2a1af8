import ScriptHost.Engine.Verbatim
import ScriptHost.Proofs.Host.Server
import ScriptHost.Proofs.Host.Writing

/-! Emission on a host that may refuse writes: every output is attempted whatever became of those
before it, and a write that fails costs that output alone. -/

namespace ScriptHost

variable {State : Type} {server : Server State} {outputs : State → NameMap String}
  {newLine : String} {target : Target} {targets : List Target} {sourceMap : Bool} {refused : Set String}

namespace Target

theorem only_emit (target : Target) (sourceMap : Bool) :
    (target.emit sourceMap).Only Ask.IsOutput := by
  cases sourceMap with
  | false => exact ⟨trivial, fun _ => ⟨rfl, fun _ => trivial⟩⟩
  | true => exact ⟨trivial, fun _ => ⟨rfl, fun _ => ⟨rfl, fun _ => trivial⟩⟩⟩

theorem only_emitAll (targets : List Target) (sourceMap : Bool) :
    (emitAll sourceMap targets).Only Ask.IsOutput := by
  induction targets with
  | nil => trivial
  | cons target targets ih =>
    exact (target.only_emit sourceMap).bind fun _ => ih.bind fun _ => trivial

/-- What is asked for to write an output. -/
def asked (write : String × String) : Ask := .write write.1 write.2 false

theorem ask_attempts_emit (target : Target) (state : State) :
    (server.attempts (target.emit sourceMap) state).map Attempt.ask =
      (target.writes (server.answer state .newLine) sourceMap).map asked := by
  cases sourceMap <;> rfl

/-- Every write is attempted, whatever becomes of the others. -/
theorem ask_attempts_emitAll (hr : server.Records outputs) (targets : List Target)
    (state : State) :
    (server.attempts (emitAll sourceMap targets) state).map Attempt.ask =
      (targets.flatMap (Target.writes (server.answer state .newLine) sourceMap)).map asked := by
  induction targets generalizing state with
  | nil => rfl
  | cons target targets ih =>
    rw [emitAll, Server.attempts_bind, Server.attempts_bind, Server.attempts, List.append_nil,
      List.map_append, ask_attempts_emit, ih, hr.newLine_serve (target.only_emit sourceMap) state,
      List.flatMap_cons, List.map_append]

theorem diagnostics_emit (target : Target) (state : State) :
    (server.serve (target.emit sourceMap) state).1.diagnostics =
      (server.attempts (target.emit sourceMap) state).flatMap fun attempt =>
        faults attempt.name attempt.answer := by
  cases sourceMap with
  | false => exact (List.append_nil _).symm
  | true => exact congrArg (faults _ _ ++ ·) (List.append_nil _).symm

theorem diagnostics_emitAll (targets : List Target) (state : State) :
    (server.serve (emitAll sourceMap targets) state).1.diagnostics =
      (server.attempts (emitAll sourceMap targets) state).flatMap fun attempt =>
        faults attempt.name attempt.answer := by
  induction targets generalizing state with
  | nil => rfl
  | cons target targets ih =>
    rw [emitAll, Server.attempts_bind, Server.attempts_bind, Server.attempts, List.append_nil,
      List.flatMap_append, ← ih, ← diagnostics_emit, Server.serve_bind, Server.serve_bind]
    rfl

/-- Each attempt that has failed is reported once, by its name. -/
theorem forall₂_faults (attempts : List Attempt) :
    List.Forall₂ (fun attempt diagnostic => ∃ error, attempt.answer = .error error ∧
        diagnostic = ⟨none, 0, 0, .error, 5033,
          "Could not write file '" ++ attempt.name ++ "': " ++ error.reason ++ "."⟩)
      (attempts.filter Attempt.failed)
      (attempts.flatMap fun attempt => faults attempt.name attempt.answer) := by
  induction attempts with
  | nil => exact .nil
  | cons attempt attempts ih =>
    cases ha : attempt.answer with
    | ok =>
      have hf : attempt.failed = false := by rw [Attempt.failed, ha]; rfl
      simpa [hf, ha, faults] using ih
    | error error =>
      have hf : attempt.failed = true := by rw [Attempt.failed, ha]; rfl
      rw [List.filter_cons_of_pos hf, List.flatMap_cons, ha]
      exact .cons ⟨error, ha, rfl⟩ ih

theorem sourceMaps_emit [DecidablePred (· ∈ refused)] (target : Target) (state : State)
    (h : ∀ attempt ∈ server.attempts (target.emit sourceMap) state,
      attempt.failed = true ↔ attempt.name ∈ refused) :
    (server.serve (target.emit sourceMap) state).1.sourceMaps =
      (maps sourceMap [target]).filter (·.mapFile ∉ refused) := by
  cases sourceMap with
  | false => rfl
  | true =>
    let text := target.text (server.answer state .newLine) true
    let after := (server.write state target.name text false).2
    let attempt : Attempt :=
      ⟨target.mapName, target.sourceMap.json, false,
        (server.write after target.mapName target.sourceMap.json false).1⟩
    have hf : attempt.failed = true ↔ target.mapName ∈ refused :=
      h attempt (List.mem_cons_of_mem _ List.mem_cons_self)
    have hmap : (server.serve (target.emit true) state).1.sourceMaps =
        if attempt.answer.isOk then [target.sourceMap] else [] := rfl
    have hkept : attempt.answer.isOk = true ↔ target.mapName ∉ refused := by
      rw [← hf, Attempt.failed, Bool.not_eq_true, Bool.not_eq_false']
    rw [hmap]
    by_cases hm : target.mapName ∈ refused
    · simp [maps, hkept, hm, Target.sourceMap]
    · simp [maps, hkept, hm, Target.sourceMap]

/-- A source map counts just when its own write has not failed. -/
theorem sourceMaps_emitAll [DecidablePred (· ∈ refused)] (targets : List Target) (state : State)
    (h : ∀ attempt ∈ server.attempts (emitAll sourceMap targets) state,
      attempt.failed = true ↔ attempt.name ∈ refused) :
    (server.serve (emitAll sourceMap targets) state).1.sourceMaps =
      (maps sourceMap targets).filter (·.mapFile ∉ refused) := by
  induction targets generalizing state with
  | nil => cases sourceMap <;> rfl
  | cons target targets ih =>
    rw [emitAll, Server.attempts_bind, Server.attempts_bind] at h
    have hfirst := sourceMaps_emit target state fun attempt ha =>
      h attempt (List.mem_append_left _ ha)
    have hrest := ih _ fun attempt ha =>
      h attempt (List.mem_append_right _ (List.mem_append_left _ ha))
    have hmaps : maps sourceMap (target :: targets) =
        maps sourceMap [target] ++ maps sourceMap targets := by cases sourceMap <;> rfl
    rw [hmaps, List.filter_append, ← hfirst, ← hrest, emitAll, Server.serve_bind,
      Server.serve_bind]
    rfl

end Target

theorem filterMap_kept? [DecidablePred (· ∈ refused)] {attempts : List Attempt}
    {writes : List (String × String)} (ha : attempts.map Attempt.ask = writes.map Target.asked)
    (h : ∀ attempt ∈ attempts, attempt.failed = true ↔ attempt.name ∈ refused) :
    attempts.filterMap Attempt.kept? = writes.filter (·.1 ∉ refused) := by
  induction attempts generalizing writes with
  | nil =>
    obtain rfl : writes = [] := by simpa using ha.symm
    rfl
  | cons attempt attempts ih =>
    cases writes with
    | nil => simp at ha
    | cons write writes =>
      obtain ⟨hw, hrest⟩ := List.cons.inj ha
      obtain ⟨hn, hd, -⟩ := Ask.write.inj hw
      obtain ⟨hf, h⟩ := List.forall_mem_cons.1 h
      have hi := ih hrest h
      by_cases hr : write.1 ∈ refused
      · have hk : attempt.kept? = none := if_pos (hf.2 (hn ▸ hr))
        rw [List.filterMap_cons_none hk, hi]
        simp [hr]
      · have hk : attempt.kept? = some write := by
          rw [Attempt.kept?, if_neg (fun hf' => hr (hn ▸ hf.1 hf')), hn, hd]
        rw [List.filterMap_cons_some hk, hi]
        simp [hr]

/-- On a host that refuses to write some names, a program attempts the same writes as on any other.
Each attempt that fails is reported by its name and the reason, each source map whose own write does
not fail counts, and each name that is not refused holds what was last written under it. -/
theorem failed_write_loses_its_output (server : Server State) (outputs : State → NameMap String)
    (hr : server.Records outputs) (closure : Closure) (options : Options) (full : Bool)
    (state : State) (refused : Set String) [DecidablePred (· ∈ refused)]
    (hf : ∀ attempt ∈ server.attempts ((closure.program options).checker full).emit state,
      attempt.failed = true ↔ attempt.name ∈ refused) :
    let targets := Target.ofProgram options closure.sources
    let writes :=
      targets.flatMap (Target.writes (server.answer state .newLine) options.sourceMap)
    let attempts := server.attempts ((closure.program options).checker full).emit state
    let emission := (server.serve ((closure.program options).checker full).emit state).1
    let after := (server.serve ((closure.program options).checker full).emit state).2
    attempts.map Attempt.ask = writes.map Target.asked ∧
    List.Forall₂ (fun attempt diagnostic => ∃ error, attempt.answer = .error error ∧
        diagnostic = ⟨none, 0, 0, .error, 5033,
          "Could not write file '" ++ attempt.name ++ "': " ++ error.reason ++ "."⟩)
      (attempts.filter (·.name ∈ refused)) emission.diagnostics ∧
    emission.sourceMaps = (Target.maps options.sourceMap targets).filter (·.mapFile ∉ refused) ∧
    ∀ name, (outputs after).get? name =
      if name ∈ refused then (outputs state).get? name
      else (writes.reverse.lookup name).or ((outputs state).get? name) := by
  intro targets writes attempts emission after
  have hasks : attempts.map Attempt.ask = writes.map Target.asked :=
    Target.ask_attempts_emitAll hr targets state
  have hfailed : attempts.filter (·.name ∈ refused) = attempts.filter Attempt.failed := by
    refine List.filter_congr fun attempt ha => ?_
    rw [Bool.eq_iff_iff, decide_eq_true_iff]
    exact (hf attempt ha).symm
  have hdiagnostics : emission.diagnostics =
      attempts.flatMap fun attempt => Target.faults attempt.name attempt.answer :=
    Target.diagnostics_emitAll targets state
  have houtputs : outputs after =
      (outputs state).putAll (writes.filter (·.1 ∉ refused)) := by
    rw [← filterMap_kept? hasks hf]
    exact hr.outputs_serve (Target.only_emitAll targets options.sourceMap) state
  refine ⟨hasks, ?_, Target.sourceMaps_emitAll targets state hf, fun name => ?_⟩
  · rw [hfailed, hdiagnostics]
    exact Target.forall₂_faults attempts
  · rw [houtputs]
    exact NameMap.get?_putAll_filter _ _ _

/-- Two outputs with source maps, where a directory stands in the place of one of each kind. -/
theorem failed_write_loses_its_output_blocked :
    let disk : Disk := ⟨.directory [("a.js", .directory []), ("b.js.map", .directory [])], .root⟩
    let host : Host := { configuration := {}, outputs := NameMap.empty.insert "a.js" "var old;\n" }
    let options : Options := { sourceMap := true }
    let closure : Closure := { sources := [⟨"a.ts", "var a;\n"⟩, ⟨"b.ts", "var b;"⟩] }
    let served := host.serve ((closure.program options).checker true).emit disk
    served.answer.sourceMaps.map SourceMap.mapFile = ["a.js.map"] ∧
    served.answer.diagnostics.map Diagnostic.render =
      ["error TS5033: Could not write file 'a.js': Is a directory (os error 21).",
        "error TS5033: Could not write file 'b.js.map': Is a directory (os error 21)."] ∧
    served.host.outputs.get? "a.js" = some "var old;\n" ∧
    served.host.outputs.get? "b.js" = some "var b;\n//# sourceMappingURL=b.js.map\n" := by
  intro disk host options closure served
  let attempts :=
    Host.server.attempts ((closure.program options).checker true).emit (host, disk)
  have hf : ∀ attempt ∈ attempts,
      attempt.failed = true ↔ attempt.name ∈ {name | name = "a.js" ∨ name = "b.js.map"} := by
    decide +kernel
  have hrefused : (attempts.filter (·.name ∈ {name | name = "a.js" ∨ name = "b.js.map"})).map
      (fun attempt => (attempt.name, attempt.answer)) =
        [("a.js", .error (.write "a.js" .isDirectory)),
          ("b.js.map", .error (.write "b.js.map" .isDirectory))] := by decide +kernel
  have hall := failed_write_loses_its_output Host.server _ Host.records_server closure options true
    (host, disk) {name | name = "a.js" ∨ name = "b.js.map"} hf
  simp only [Host.serve_server] at hall
  obtain ⟨-, hfaults, hmaps, houtputs⟩ := hall
  refine ⟨?_, ?_, ?_, ?_⟩
  · rw [hmaps]
    decide +kernel
  · have hnamed : List.Forall₂ (fun (refused : String × WriteAnswer) diagnostic => ∃ error,
        refused.2 = .error error ∧ diagnostic = ⟨none, 0, 0, .error, 5033,
          "Could not write file '" ++ refused.1 ++ "': " ++ error.reason ++ "."⟩)
        [("a.js", .error (.write "a.js" .isDirectory)),
          ("b.js.map", .error (.write "b.js.map" .isDirectory))] served.answer.diagnostics := by
      rw [← hrefused, List.forall₂_map_left_iff]
      exact hfaults
    obtain ⟨_, others, ⟨first, hfirst, rfl⟩, hothers, hd⟩ := List.forall₂_cons_left_iff.1 hnamed
    obtain ⟨_, none, ⟨second, hsecond, rfl⟩, hnone, rfl⟩ := List.forall₂_cons_left_iff.1 hothers
    obtain rfl := List.forall₂_nil_left_iff.1 hnone
    obtain rfl := Except.error.inj hfirst
    obtain rfl := Except.error.inj hsecond
    rw [hd]
    decide +kernel
  · rw [houtputs]
    decide +kernel
  · rw [houtputs]
    decide +kernel

end ScriptHost
