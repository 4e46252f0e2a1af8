import ScriptHost.Closure
import ScriptHost.Proofs.FixedHost

/-! The walk from demand to demand that builds a closure, with the names whose text is still open. A
visit with a sufficient bound on its depth is such a walk, and the walk reads what the visit reads.
-/

namespace ScriptHost

/-- A name that is asked for, and the place that asks for it. -/
structure Demand where
  site : Option Site
  name : String
  deriving DecidableEq, Repr

/-- The name in normal form, under which a demand is looked up. -/
def Demand.target (demand : Demand) : String := FileName.normalize demand.name

/-- What the name of a demand is known by. -/
def Demand.key (demand : Demand) (host : FixedHost) : String := host.canonicalName demand.target

/-- The demands that a source makes. -/
def SourceText.demands (source : SourceText) (options : Options) : List Demand :=
  (source.followed options).map fun reference =>
    ⟨some (reference.site source), reference.target source⟩

theorem SourceText.mem_demands {source : SourceText} {options : Options} {demand : Demand} :
    demand ∈ source.demands options ↔ options.noResolve = false ∧
      ∃ reference ∈ Reference.ofText source.text,
        ⟨some (reference.site source), reference.target source⟩ = demand := by
  unfold demands followed
  cases options.noResolve <;> simp

/-- An error says of a name that the host has no text under it, and why if it cannot be read. -/
inductive Blames (host : FixedHost) (name : String) (fault : Diagnostic) : Prop where
  | notFound (answer : host.read name = .ok none) (category : fault.category = .error)
      (code : fault.code = 6053) (message : fault.message = "File '" ++ name ++ "' not found.")
  | unreadable {error : HostError} (answer : host.read name = .error error)
      (category : fault.category = .error) (code : fault.code = 5012)
      (message : fault.message = "Cannot read file '" ++ name ++ "': " ++ error.reason ++ ".")

/-- Whether a diagnostic is at a site, or at no place. -/
def Diagnostic.IsAt (diagnostic : Diagnostic) : Option Site → Prop
  | some site => diagnostic.source = some site.source ∧ diagnostic.start = site.start ∧
      diagnostic.length = site.length
  | none => diagnostic.source = none ∧ diagnostic.start = 0 ∧ diagnostic.length = 0

/-- A diagnostic blames a name for which the host has no text on what asks for it: a site, or
nothing when the program starts from the name. -/
structure BlamesAt (host : FixedHost) (name : String) (site : Option Site) (fault : Diagnostic) :
    Prop where
  blames : Blames host name fault
  place : fault.IsAt site

variable {host : FixedHost} {options : Options} {served depth : Nat} {stack : List String}
  {demand : Demand} {demands : List Demand} {name text : String} {site : Option Site}
  {fault : Diagnostic}

theorem Blames.lacks (h : Blames host name fault) (text : String) :
    host.read name ≠ .ok (some text) := by
  cases h with
  | notFound answer => simp [answer]
  | unreadable answer => simp [answer]

namespace Closure

/-- What is wrong with a name under which a host has no text. -/
def faultFor (host : FixedHost) (name : String) : Diagnostic :=
  match host.read name with
  | .error error => unreadable name error
  | .ok _ => notFound name

theorem category_blame : (fault.blame site).category = fault.category := by
  cases site <;> rfl

theorem code_blame : (fault.blame site).code = fault.code := by
  cases site <;> rfl

theorem message_blame : (fault.blame site).message = fault.message := by
  cases site <;> rfl

theorem blames_faultFor (h : ∀ text, host.read name ≠ .ok (some text)) (site : Option Site) :
    Blames host name ((faultFor host name).blame site) := by
  unfold faultFor
  cases hr : host.read name with
  | error error => exact .unreadable hr category_blame code_blame message_blame
  | ok answer =>
    cases answer with
    | none => exact .notFound hr category_blame code_blame message_blame
    | some text => exact (h text hr).elim

theorem isAt_blame (hs : fault.source = none) (hp : fault.start = 0 ∧ fault.length = 0)
    (site : Option Site) : (fault.blame site).IsAt site := by
  cases site with
  | none => exact ⟨hs, hp⟩
  | some site => exact ⟨rfl, rfl, rfl⟩

theorem isAt_faultFor (host : FixedHost) (name : String) (site : Option Site) :
    ((faultFor host name).blame site).IsAt site := by
  unfold faultFor
  split <;> exact isAt_blame rfl ⟨rfl, rfl⟩ site

end Closure

open Closure

/-- Nothing is left open about a diagnostic that blames a name at a site. -/
theorem BlamesAt.eq (h : BlamesAt host name site fault) :
    fault = (faultFor host name).blame site := by
  obtain ⟨hb, hp⟩ := h
  obtain ⟨source, start, length, category, code, message⟩ := fault
  cases hb with
  | notFound answer hcategory hcode hmessage =>
    subst hcategory hcode hmessage
    rw [faultFor, answer]
    cases site <;> obtain ⟨hs, ht, hl⟩ := hp <;> subst hs ht hl <;> rfl
  | unreadable answer hcategory hcode hmessage =>
    subst hcategory hcode hmessage
    rw [faultFor, answer]
    cases site <;> obtain ⟨hs, ht, hl⟩ := hp <;> subst hs ht hl <;> rfl

theorem blamesAt_faultFor (h : ∀ text, host.read name ≠ .ok (some text)) (site : Option Site) :
    BlamesAt host name site ((faultFor host name).blame site) :=
  ⟨blames_faultFor h site, isAt_faultFor host name site⟩

namespace Closure

/-- Meets demands one after another while the texts of a stack of names are open, and reads names
that are not known yet. -/
inductive Walk (host : FixedHost) (options : Options) :
    (stack : List String) → List Demand → Closure → (names : List String) → Closure → Prop where
  | done {stack closure} : Walk host options stack [] closure [] closure
  | known {stack demand demands closure names after} (h : demand.key host ∈ closure.seen)
      (rest : Walk host options stack demands closure names after) :
      Walk host options stack (demand :: demands) closure names after
  | failed {stack demand demands closure names after fault} (h : demand.key host ∉ closure.seen)
      (blames : BlamesAt host demand.target demand.site fault)
      (rest : Walk host options stack demands ((closure.mark (demand.key host)).report fault)
        names after) :
      Walk host options stack (demand :: demands) closure (demand.target :: names) after
  | read {stack demand demands closure text inner between names after}
      (h : demand.key host ∉ closure.seen) (answer : host.read demand.target = .ok (some text))
      (below : Walk host options (demand.target :: stack)
        (SourceText.demands ⟨demand.target, text⟩ options) (closure.mark (demand.key host))
        inner between)
      (rest : Walk host options stack demands (between.add ⟨demand.target, text⟩) names after) :
      Walk host options stack (demand :: demands) closure (demand.target :: (inner ++ names)) after

/-- The open names are pairwise different, are known, and have text. -/
structure Open (host : FixedHost) (stack : List String) (closure : Closure) : Prop where
  nodup : stack.Nodup
  seen : ∀ name ∈ stack, host.canonicalName name ∈ closure.seen
  texts : ∀ name ∈ stack, name ∈ host.texts

variable {names : List String} {closure after : Closure} {key : String}

theorem subset_mark (closure : Closure) (key : String) :
    closure.seen ⊆ (closure.mark key).seen := List.subset_append_left _ _

theorem mem_mark (closure : Closure) (key : String) : key ∈ (closure.mark key).seen :=
  List.mem_append_right _ (List.mem_singleton_self key)

/-- A walk gets to know the names that it reads, and no others. -/
theorem Walk.seen_eq (h : Walk host options stack demands closure names after) :
    after.seen = closure.seen ++ names.map host.canonicalName := by
  induction h with
  | done => simp
  | known _ _ ih => exact ih
  | failed _ _ _ ih => simpa [mark, report, Demand.key] using ih
  | read _ _ _ _ ihbelow ihrest => simpa [ihbelow, mark, add, Demand.key] using ihrest

theorem Walk.seen_subset (h : Walk host options stack demands closure names after) :
    closure.seen ⊆ after.seen := by
  rw [h.seen_eq]
  exact List.subset_append_left _ _

theorem open_nil (closure : Closure) : Open host [] closure :=
  ⟨List.nodup_nil, by simp, by simp⟩

theorem Open.mono (h : Open host stack closure) (hs : closure.seen ⊆ after.seen) :
    Open host stack after :=
  ⟨h.nodup, fun name hn => hs (h.seen name hn), h.texts⟩

theorem Open.not_mem (h : Open host stack closure) (hn : demand.key host ∉ closure.seen) :
    demand.target ∉ stack := fun hs => hn (h.seen _ hs)

theorem Open.push (h : Open host stack closure) (hn : demand.key host ∉ closure.seen)
    (hr : host.read demand.target = .ok (some text)) :
    Open host (demand.target :: stack) (closure.mark (demand.key host)) := by
  refine ⟨List.nodup_cons.2 ⟨h.not_mem hn, h.nodup⟩, ?_, ?_⟩
  · intro name hname
    obtain rfl | hname := List.mem_cons.1 hname
    · exact mem_mark _ _
    · exact subset_mark _ _ (h.seen name hname)
  · intro name hname
    obtain rfl | hname := List.mem_cons.1 hname
    · exact ⟨⟨demand.name, rfl⟩, text, hr⟩
    · exact h.texts name hname

/-- Visits for demands one after another. -/
def visitAll (options : Options) (depth : Nat) (demands : List Demand) (closure : Closure) :
    Task Closure :=
  demands.foldlM (fun closure demand => visit options depth demand.site demand.name closure) closure

/-- A visit to a demand asks what its name is known by. If that is new it reads the name, and
follows the demands of its text. -/
theorem visit_eq (options : Options) (depth : Nat) (demand : Demand) (closure : Closure) :
    visit options (depth + 1) demand.site demand.name closure =
      .query (.canonicalName demand.target) fun (key : String) =>
        if key ∈ closure.seen then .done closure
        else .read demand.target fun answer =>
          match answer with
          | .ok (some text) =>
            (visitAll options depth (SourceText.demands ⟨demand.target, text⟩ options)
              (closure.mark key)).bind fun closure => .done (closure.add ⟨demand.target, text⟩)
          | .ok none =>
            .done ((closure.mark key).report ((notFound demand.target).blame demand.site))
          | .error error =>
            .done ((closure.mark key).report
              ((unreadable demand.target error).blame demand.site)) := by
  simp only [visit, visitAll, SourceText.demands, List.foldlM_map]
  rfl

theorem visit_known (options : Options) (depth : Nat) (hn : demand.key host ∈ closure.seen) :
    let visited := visit options (depth + 1) demand.site demand.name closure
    visited.value host = closure ∧ visited.reads host = [] := by
  have hn' : host.answer (.canonicalName demand.target) ∈ closure.seen := hn
  rw [visit_eq]
  simp [Task.value, hn']

theorem visit_text (options : Options) (depth : Nat) (hn : demand.key host ∉ closure.seen)
    (hr : host.read demand.target = .ok (some text)) :
    let visited := visit options (depth + 1) demand.site demand.name closure
    let below := visitAll options depth (SourceText.demands ⟨demand.target, text⟩ options)
      (closure.mark (demand.key host))
    visited.value host = (below.value host).add ⟨demand.target, text⟩ ∧
      visited.reads host = demand.target :: below.reads host := by
  have hn' : host.answer (.canonicalName demand.target) ∉ closure.seen := hn
  rw [visit_eq]
  simp only [Task.value, Task.reads_query, hn', if_false, Task.reads_read, hr, Task.value_bind,
    Task.reads_bind, Task.reads_done, List.append_nil]
  exact ⟨rfl, rfl⟩

theorem visit_fault (options : Options) (depth : Nat) (hn : demand.key host ∉ closure.seen)
    (hr : ∀ text, host.read demand.target ≠ .ok (some text)) :
    let visited := visit options (depth + 1) demand.site demand.name closure
    visited.value host = (closure.mark (demand.key host)).report
        ((faultFor host demand.target).blame demand.site) ∧
      visited.reads host = [demand.target] := by
  have hn' : host.answer (.canonicalName demand.target) ∉ closure.seen := hn
  rw [visit_eq, faultFor]
  simp only [Task.value, Task.reads_query, hn', if_false, Task.reads_read]
  cases h : host.read demand.target with
  | error error => exact ⟨rfl, rfl⟩
  | ok answer =>
    cases answer with
    | some text => exact (hr text h).elim
    | none => exact ⟨rfl, rfl⟩

theorem visitAll_cons (options : Options) (depth : Nat) (demand : Demand) (demands : List Demand)
    (closure : Closure) :
    visitAll options depth (demand :: demands) closure =
      (visit options depth demand.site demand.name closure).bind
        (visitAll options depth demands) := rfl

/-- A set of names that no text under one of them leads out of. -/
def Enclosed (host : FixedHost) (options : Options) (names : Set String) : Prop :=
  ∀ name ∈ names, ∀ text, host.read name = .ok (some text) →
    ∀ demand ∈ SourceText.demands ⟨name, text⟩ options, demand.target ∈ names

/-- A depth beyond the number of texts that can still be opened never runs out. -/
theorem walk_visitAll {allowed : Set String} (hn : Enclosed host options allowed)
    (hb : (host.texts ∩ allowed).encard ≤ served) (ho : Open host stack closure)
    (hs : ∀ name ∈ stack, name ∈ allowed) (hd : ∀ demand ∈ demands, demand.target ∈ allowed)
    (hl : served < stack.length + depth) :
    let visited := visitAll options depth demands closure
    Walk host options stack demands closure (visited.reads host) (visited.value host) := by
  induction depth generalizing stack demands closure with
  | zero =>
    have := FixedHost.length_le_of_encard hb ho.nodup fun name hm => ⟨ho.texts name hm, hs name hm⟩
    omega
  | succ depth ih =>
    induction demands generalizing closure with
    | nil => exact .done
    | cons demand demands ihd =>
      obtain ⟨hfirst, hd⟩ := List.forall_mem_cons.1 hd
      simp only [visitAll_cons, Task.value_bind, Task.reads_bind]
      by_cases hm : demand.key host ∈ closure.seen
      · obtain ⟨hvalue, hreads⟩ := visit_known options depth hm
        rw [hvalue, hreads]
        exact .known hm (ihd ho hd)
      by_cases hr : ∃ text, host.read demand.target = .ok (some text)
      · obtain ⟨text, hr⟩ := hr
        obtain ⟨hvalue, hreads⟩ := visit_text options depth hm hr
        have hbelow := ih (ho.push hm hr) (List.forall_mem_cons.2 ⟨hfirst, hs⟩)
          (hn _ hfirst text hr) (by simp only [List.length_cons]; omega)
        rw [hvalue, hreads]
        have hsub := List.Subset.trans (subset_mark _ _) hbelow.seen_subset
        exact .read hm hr hbelow (ihd (ho.mono hsub) hd)
      · have hlacks := not_exists.1 hr
        obtain ⟨hvalue, hreads⟩ := visit_fault options depth hm hlacks
        rw [hvalue, hreads]
        exact .failed hm (blamesAt_faultFor hlacks _) (ihd (ho.mono (subset_mark _ _)) hd)

theorem only_visitAll
    (h : ∀ demand closure,
      (visit options depth (Demand.site demand) demand.name closure).Only Ask.IsLookUp) :
    (visitAll options depth demands closure).Only Ask.IsLookUp := by
  induction demands generalizing closure with
  | nil => trivial
  | cons demand demands ih => exact (h _ _).bind fun _ => ih

theorem only_visit (demand : Demand) (closure : Closure) :
    (visit options depth demand.site demand.name closure).Only Ask.IsLookUp := by
  induction depth generalizing demand closure with
  | zero => trivial
  | succ depth ih =>
    rw [visit_eq]
    refine ⟨trivial, fun key => ?_⟩
    dsimp only
    split
    · trivial
    · refine ⟨trivial, fun answer => ?_⟩
      dsimp only
      split
      · exact (only_visitAll ih).bind fun _ => trivial
      · trivial
      · trivial

end Closure

end ScriptHost
