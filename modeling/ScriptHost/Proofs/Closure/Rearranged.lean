import ScriptHost.Proofs.Closure.Serve

/-! Closures of the same roots in another order: they hold the same sources and have the same
faults, but for where a fault is found. -/

namespace ScriptHost

variable {host : FixedHost} {options : Options} {roots more : List String} {served : Nat}
  {names others : List String} {name : String} {fault : Diagnostic} {first second : Closure}

/-- A diagnostic without its place. -/
def Diagnostic.unplaced (diagnostic : Diagnostic) : Diagnostic :=
  { diagnostic with source := none, start := 0, length := 0 }

/-- What is reached from roots is reached from any others that have them all. -/
theorem Reached.mono (h : Reached host options roots name) (hr : roots ⊆ more) :
    Reached host options more name := by
  induction h with
  | library hl hn => exact .library hl hn
  | root hn => exact .root (hr hn)
  | reference hf _ answer hm ih => exact .reference hf ih answer hm

namespace Closure

theorem unplaced_of_blames (h : Blames host name fault) :
    fault.unplaced = faultFor host name := by
  obtain ⟨source, start, length, category, code, message⟩ := fault
  cases h with
  | notFound answer hcategory hcode hmessage =>
    subst hcategory hcode hmessage
    rw [faultFor, answer]
    rfl
  | unreadable answer hcategory hcode hmessage =>
    subst hcategory hcode hmessage
    rw [faultFor, answer]
    rfl

theorem Sound.map_unplaced_faults {stack : List String}
    (h : Sound host options roots stack names first) :
    first.faults.map Diagnostic.unplaced = (names.filter (lacks host)).map (faultFor host) := by
  have hf := h.faults
  generalize names.filter (lacks host) = failed at hf
  generalize first.faults = faults at hf
  induction hf with
  | nil => rfl
  | cons hfirst _ ih => rw [List.map_cons, List.map_cons, unplaced_of_blames hfirst, ih]

/-- Sound closures that have read the same names differ in order alone. -/
theorem Sound.perm (hf : Sound host options roots [] names first)
    (hs : Sound host options more [] others second) (hn : ∀ name, name ∈ names ↔ name ∈ others) :
    first.sources.Perm second.sources ∧
      (first.faults.map Diagnostic.unplaced).Perm (second.faults.map Diagnostic.unplaced) := by
  have hp : names.Perm others := (List.perm_ext_iff_of_nodup (hf.seen ▸ hf.nodup).of_map
    (hs.seen ▸ hs.nodup).of_map).2 hn
  refine ⟨?_, ?_⟩
  · refine (List.perm_ext_iff_of_nodup (.of_map _ hf.sources_nodup)
      (.of_map _ hs.sources_nodup)).2 fun source => ?_
    rw [hf.mem_sources, hs.mem_sources, hn]
  · rw [hf.map_unplaced_faults, hs.map_unplaced_faults]
    exact (hp.filter _).map _

/-- The order of the roots makes no difference but to the order of a closure, where no two names are
the same to the host. -/
theorem perm_ofRoots (hb : host.texts.encard ≤ served)
    (hi : Function.Injective host.canonicalName) (hr : ∀ name, name ∈ roots ↔ name ∈ more) :
    let first := (ofRoots served roots options).value host
    let second := (ofRoots served more options).value host
    first.sources.Perm second.sources ∧
      (first.faults.map Diagnostic.unplaced).Perm (second.faults.map Diagnostic.unplaced) := by
  obtain ⟨hfirst, hcovers⟩ := sound_ofRoots hb roots options
  obtain ⟨hsecond, hcovered⟩ := sound_ofRoots hb more options
  refine hfirst.perm hsecond fun name => ?_
  rw [hfirst.mem_iff_reached hcovers hi.injOn, hsecond.mem_iff_reached hcovered hi.injOn]
  exact ⟨fun h => h.mono fun name hn => (hr name).1 hn,
    fun h => h.mono fun name hn => (hr name).2 hn⟩

end Closure

end ScriptHost
