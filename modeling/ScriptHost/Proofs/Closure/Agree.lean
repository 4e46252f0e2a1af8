import ScriptHost.Proofs.Closure.Serve

/-! What a closure depends on: the answers to the names that are reached, and no bound that is large
enough. -/

namespace ScriptHost.Closure

variable {host first second : FixedHost} {options : Options} {roots : List String}
  {served more : Nat} {stack names others : List String} {demands : List Demand}
  {closure after other : Closure}

/-- The answers leave a walk no choice. -/
theorem Walk.unique (h : Walk host options stack demands closure names after)
    (ho : Walk host options stack demands closure others other) :
    names = others ∧ after = other := by
  induction h generalizing others other with
  | done =>
    cases ho
    exact ⟨rfl, rfl⟩
  | known hn _ ih =>
    cases ho with
    | known _ rest => exact ih rest
    | failed hm _ _ => exact (hm hn).elim
    | read hm _ _ _ => exact (hm hn).elim
  | failed hn hb _ ih =>
    cases ho with
    | known hm _ => exact (hn hm).elim
    | failed _ hc rest =>
      rw [hc.eq, ← hb.eq] at rest
      obtain ⟨rfl, rfl⟩ := ih rest
      exact ⟨rfl, rfl⟩
    | read _ ht _ _ => exact (hb.blames.lacks _ ht).elim
  | read hn ht _ _ ihbelow ihrest =>
    cases ho with
    | known hm _ => exact (hn hm).elim
    | failed _ hb _ => exact (hb.blames.lacks _ ht).elim
    | read _ hs below rest =>
      obtain rfl := Option.some.inj (Except.ok.inj (ht.symm.trans hs))
      obtain ⟨rfl, rfl⟩ := ihbelow below
      obtain ⟨rfl, rfl⟩ := ihrest rest
      exact ⟨rfl, rfl⟩

theorem value_ofRoots_of_le (hb : host.texts.encard ≤ served) (hm : served ≤ more) :
    (ofRoots served roots options).value host = (ofRoots more roots options).value host := by
  have hmore : host.texts.encard ≤ more := hb.trans (by exact_mod_cast hm)
  exact ((walk_ofRoots hb).unique (walk_ofRoots hmore)).2

/-- Hosts that agree on the names that are reached, and on what is the same, lead to one closure,
whatever bounds they have. -/
theorem value_ofRoots_of_agree (hf : first.texts.encard ≤ served) (hs : second.texts.encard ≤ more)
    (hc : first.canonicalName = second.canonicalName)
    (hr : ∀ name, Reached first options roots name → first.read name = second.read name) :
    (ofRoots served roots options).value first = (ofRoots more roots options).value second := by
  -- One bound that is enough for both hosts stands between them.
  have hfirst : first.texts.encard ≤ (max served more : Nat) :=
    hf.trans (by exact_mod_cast le_max_left served more)
  have hagree : (ofRoots (max served more) roots options).value first =
      (ofRoots (max served more) roots options).value second :=
    (only_ofRoots _ _ _).value_congr hc fun name hn =>
      hr name ((sound_ofRoots hfirst roots options).1.reached name hn)
  rw [value_ofRoots_of_le hf (le_max_left served more), hagree,
    ← value_ofRoots_of_le hs (le_max_right served more)]

end ScriptHost.Closure
