import ScriptHost.Host.Service
import ScriptHost.Proofs.NameMap
import ScriptHost.Target

/-! Emission on a host that keeps its outputs as strings: every write succeeds, and the outputs are
the only thing that it changes besides what a redirect has received. -/

namespace ScriptHost

variable {host : Host} {disk : Disk} {target : Target} {sourceMap : Bool}

namespace Target

/-- What is written for an output: its text, and its source map if there is to be one. -/
def writes (newLine : String) (sourceMap : Bool) (target : Target) : List (String × String) :=
  (target.name, target.text newLine sourceMap) ::
    if sourceMap then [(target.mapName, target.sourceMap.json)] else []

/-- The names under which an output is written, and its source map if there is to be one. -/
def names (sourceMap : Bool) (target : Target) : List String :=
  target.name :: if sourceMap then [target.mapName] else []

theorem names_writes (newLine : String) (sourceMap : Bool) (target : Target) :
    (target.writes newLine sourceMap).map Prod.fst = target.names sourceMap := by
  cases sourceMap <;> rfl

/-- The source maps of outputs, if there are to be any. -/
def maps (sourceMap : Bool) (targets : List Target) : List SourceMap :=
  if sourceMap then targets.map Target.sourceMap else []

end Target

namespace Host

/-- The host once an output has been written to its strings. -/
def keep (host : Host) (write : String × String) : Host :=
  (host.record write.1 write.2).forward write.1 write.2 false

/-- The host once outputs have been written to its strings one after another. -/
def keepAll (host : Host) (writes : List (String × String)) : Host := writes.foldl keep host

theorem write_keep (host : Host) (write : String × String) :
    (host.keep write).write = host.write := by
  unfold keep forward
  split <;> rfl

theorem write_keepAll (host : Host) (writes : List (String × String)) :
    (host.keepAll writes).write = host.write := by
  induction writes generalizing host with
  | nil => rfl
  | cons write writes ih => exact (ih _).trans (write_keep host write)

theorem keepAll_append (host : Host) (first second : List (String × String)) :
    host.keepAll (first ++ second) = (host.keepAll first).keepAll second := List.foldl_append

/-- Nothing but the outputs and what a redirect has received is changed. -/
theorem exists_keep_eq (host : Host) (write : String × String) : ∃ forwarded, host.keep write =
    { host with outputs := host.outputs.insert write.1 write.2, forwarded := forwarded } := by
  unfold keep forward
  split
  · exact ⟨_, rfl⟩
  · exact ⟨host.forwarded, rfl⟩

theorem exists_keepAll_eq (host : Host) (writes : List (String × String)) :
    ∃ forwarded, host.keepAll writes =
      { host with outputs := host.outputs.putAll writes, forwarded := forwarded } := by
  induction writes generalizing host with
  | nil => exact ⟨host.forwarded, rfl⟩
  | cons write writes ih =>
    obtain ⟨first, hfirst⟩ := exists_keep_eq host write
    obtain ⟨rest, hrest⟩ := ih (host.keep write)
    refine ⟨rest, hrest.trans ?_⟩
    rw [hfirst]
    rfl

/-- A redirect receives all that is written, in its order. -/
theorem forwarded_keepAll {redirect : String} (h : host.redirect = some redirect)
    (writes : List (String × String)) :
    (host.keepAll writes).forwarded =
      host.forwarded ++ writes.map fun write => ⟨redirect, write.1, write.2, false⟩ := by
  induction writes generalizing host with
  | nil => simp [keepAll]
  | cons write writes ih =>
    have hkeep : host.keep write = { host.record write.1 write.2 with
        forwarded := host.forwarded ++ [⟨redirect, write.1, write.2, false⟩] } := by
      unfold keep forward record
      rw [h]
    have hrest : ((host.keep write).keepAll writes).forwarded = _ := ih (by rw [hkeep]; exact h)
    rw [keepAll, List.foldl_cons, ← keepAll, hrest, hkeep, List.map_cons, List.append_assoc,
      List.singleton_append]

theorem writeFile_of_string (h : host.write = .string) (name data : String) (disk : Disk) :
    host.writeFile disk name data false = ⟨.ok (), host.keep (name, data), disk⟩ := by
  unfold writeFile
  rw [h]
  rfl

theorem serve_emit_of_string (h : host.write = .string) (target : Target) :
    host.serve (target.emit sourceMap) disk =
      ⟨⟨[], Target.maps sourceMap [target]⟩, host.keepAll (target.writes host.newLine sourceMap),
        disk⟩ := by
  have hnext : (host.keep (target.name, target.text host.newLine sourceMap)).write = .string := by
    rw [write_keep, h]
  unfold Target.emit
  rw [serve, answer, serve, writeFile_of_string h]
  cases sourceMap with
  | false => rfl
  | true =>
    simp only [if_true]
    rw [serve, writeFile_of_string hnext]
    rfl

/-- All outputs of a program are written, in their order. -/
theorem serve_emitAll_of_string (h : host.write = .string) (targets : List Target) :
    host.serve (Target.emitAll sourceMap targets) disk =
      ⟨⟨[], Target.maps sourceMap targets⟩,
        host.keepAll (targets.flatMap (Target.writes host.newLine sourceMap)), disk⟩ := by
  induction targets generalizing host with
  | nil => cases sourceMap <;> rfl
  | cons target targets ih =>
    let writes := target.writes host.newLine sourceMap
    have hnext : (host.keepAll writes).write = .string := by rw [write_keepAll, h]
    have hline : (host.keepAll writes).newLine = host.newLine := by
      obtain ⟨forwarded, hk⟩ := exists_keepAll_eq host writes
      rw [hk]
      rfl
    rw [Target.emitAll, serve_bind, serve_emit_of_string h, serve_bind, ih hnext, hline,
      List.flatMap_cons, keepAll_append]
    cases sourceMap <;> rfl

end Host

end ScriptHost
