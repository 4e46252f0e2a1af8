import ScriptHost.Proofs.Closure.Reached
import ScriptHost.Proofs.Host.Served

/-! Building a program without analysis on a host. -/

namespace ScriptHost

variable {host : Host}

/-- The engine without analysis builds a program from the answers of its host, and changes
nothing. -/
theorem serve_build_verbatim (host : Host) (disk : Disk) (served : Nat) (roots : List String)
    (options : Options) : host.serve (Engine.verbatim.build served roots options) disk =
      ⟨((Closure.ofRoots served roots options).value (host.answers disk)).program options,
        host, disk⟩ := by
  rw [Host.serve_of_lookUps (only_build_verbatim _ _ _), value_build_verbatim]

/-- On every host the walk through a program goes to its end, and reads all that the roots lead
to, or what is the same to the host. -/
theorem sound_closure_of_host (host : Host) (disk : Disk) (roots : List String)
    (options : Options) :
    let task := Closure.ofRoots host.served roots options
    let answers := host.answers disk
    Closure.Sound answers options roots [] (task.reads answers) (task.value answers) ∧
      Closure.Covers answers options roots (task.reads answers) :=
  Closure.sound_ofRoots (encard_texts_answers host disk) roots options

/-- A host that tells names apart by their case knows each by itself. -/
theorem canonicalName_answers (h : host.caseSensitive = true) (disk : Disk) :
    (host.answers disk).canonicalName = id := by
  have hf : host.platform.folded = none := Option.isNone_iff_eq_none.1 h
  funext name
  change host.canonicalName name = name
  rw [Host.canonicalName, Platform.canonicalName, hf]

/-- Such a host reads just what the roots lead to. -/
theorem sound_closure_of_caseSensitive (h : host.caseSensitive = true) (disk : Disk)
    (roots : List String) (options : Options) :
    let closure := (Closure.ofRoots host.served roots options).value (host.answers disk)
    Closure.Sound (host.answers disk) options roots [] closure.seen closure ∧
      ∀ name, name ∈ closure.seen ↔ Reached (host.answers disk) options roots name := by
  intro closure
  obtain ⟨hsound, hcovers⟩ := sound_closure_of_host host disk roots options
  have hid : (host.answers disk).canonicalName = id := canonicalName_answers h disk
  have hi : Set.InjOn (host.answers disk).canonicalName
      {name | Reached (host.answers disk) options roots name} := hid ▸ Set.injOn_id _
  have hseen : closure.seen =
      (Closure.ofRoots host.served roots options).reads (host.answers disk) := by
    rw [hsound.seen, hid, List.map_id]
  rw [hseen]
  exact ⟨hsound, fun name => hsound.mem_iff_reached hcovers hi⟩

end ScriptHost
