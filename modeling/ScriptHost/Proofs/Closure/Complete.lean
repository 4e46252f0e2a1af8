import ScriptHost.Proofs.Closure.Reached

/-! Closures without faults: they stay so when texts change and their references do not. -/

namespace ScriptHost

variable {first second : FixedHost} {options : Options} {roots : List String} {served more : Nat}
  {names others : List String} {closure other : Closure} {name text : String}

/-- Whether a host has, wherever another has text, text with the same references. -/
def FixedHost.Covers (second first : FixedHost) : Prop :=
  ∀ name text, first.read name = .ok (some text) →
    ∃ other, second.read name = .ok (some other) ∧
      Reference.ofText other = Reference.ofText text

namespace Closure

theorem Sound.faults_eq_nil_iff {stack : List String}
    (h : Sound first options roots stack names closure) :
    closure.faults = [] ↔ ∀ name ∈ names, ∃ text, first.read name = .ok (some text) := by
  have hlacks : (∀ name ∈ names, ¬ lacks first name = true) ↔
      ∀ name ∈ names, ∃ text, first.read name = .ok (some text) := by
    simp only [lacks_eq_true_iff, not_forall, not_not]
  have hl := h.faults.length_eq
  rw [← hlacks, ← List.filter_eq_nil_iff, ← List.length_eq_zero_iff, ← List.length_eq_zero_iff, hl]

/-- What is reached on a host that covers another one is reached on that one already, if that one
has text under all names that are. -/
theorem reached_of_covers (hc : second.Covers first)
    (ht : ∀ name, Reached first options roots name → ∃ text, first.read name = .ok (some text))
    (h : Reached second options roots name) : Reached first options roots name := by
  induction h with
  | library hl hn => exact .library hl hn
  | root hn => exact .root hn
  | @reference name text reference hr _ answer hm ih =>
    obtain ⟨original, ho⟩ := ht name ih
    obtain ⟨other, hread, hsame⟩ := hc name original ho
    obtain rfl : other = text := by simpa [hread] using answer
    exact .reference hr ih ho (hsame ▸ hm)

/-- When nothing is wrong with a closure, nothing is with that of a host that covers its host. -/
theorem faults_eq_nil_of_covers (hs : Sound first options roots [] names closure)
    (hseen : ∀ name, name ∈ names ↔ Reached first options roots name)
    (ho : Sound second options roots [] others other) (hc : second.Covers first)
    (hf : closure.faults = []) : other.faults = [] := by
  have ht : ∀ name, Reached first options roots name → ∃ text, first.read name = .ok (some text) :=
    fun name hn => hs.faults_eq_nil_iff.1 hf name ((hseen name).2 hn)
  refine ho.faults_eq_nil_iff.2 fun name hn => ?_
  obtain ⟨text, htext⟩ := ht name (reached_of_covers hc ht (ho.reached name hn))
  obtain ⟨other, hread, -⟩ := hc name text htext
  exact ⟨other, hread⟩

end Closure

end ScriptHost
