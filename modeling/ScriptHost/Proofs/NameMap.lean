import Mathlib.Data.List.Dedup
import ScriptHost.NameMap

/-! Maps by their lookups: many entries put into a map, and one map laid over another. -/

namespace ScriptHost

variable {α : Type} {entries : List (String × α)} {map lower upper : NameMap α} {name : String}
  {value : α}

/-- Where each step sets the name of its entry, the last entry of a name counts, and what was there
before where it has none. -/
theorem lookUp_foldl {State : Type} (lookUp : State → String → Option α)
    {step : State → String × α → State}
    (hs : ∀ state entry name, lookUp (step state entry) name =
      if name = entry.1 then some entry.2 else lookUp state name)
    (entries : List (String × α)) (state : State) (name : String) :
    lookUp (entries.foldl step state) name =
      (entries.reverse.lookup name).or (lookUp state name) := by
  induction entries generalizing state with
  | nil => simp
  | cons entry entries ih =>
    obtain ⟨key, value⟩ := entry
    rw [List.foldl_cons, ih, hs, List.reverse_cons, List.lookup_append, List.lookup_cons,
      List.lookup_nil, Option.or_assoc]
    refine congrArg _ ?_
    by_cases he : name = key
    · simp [he]
    · simp [he, beq_false_of_ne he]

theorem lookup_eq_none_iff_not_mem : entries.lookup name = none ↔ name ∉ entries.map Prod.fst := by
  rw [List.lookup_eq_none_iff]
  constructor
  · intro h hm
    obtain ⟨entry, he, rfl⟩ := List.mem_map.1 hm
    simpa using h entry he
  · intro h entry he
    rw [bne_iff_ne]
    rintro rfl
    exact h (List.mem_map_of_mem he)

/-- Where no name is repeated, a lookup finds just what the list holds. -/
theorem lookup_eq_some_iff_mem (h : (entries.map Prod.fst).Nodup) :
    entries.lookup name = some value ↔ (name, value) ∈ entries := by
  constructor
  · intro hl
    obtain ⟨before, after, rfl, -⟩ := List.lookup_eq_some_iff.1 hl
    simp
  · intro hm
    obtain ⟨before, after, rfl⟩ := List.append_of_mem hm
    refine List.lookup_eq_some_iff.2 ⟨before, after, rfl, fun entry he => ?_⟩
    rw [List.map_append, List.nodup_append] at h
    have hne := h.2.2 entry.1 (List.mem_map_of_mem he) name (by simp)
    simpa using hne.symm

theorem lookup_reverse (h : (entries.map Prod.fst).Nodup) :
    entries.reverse.lookup name = entries.lookup name := by
  have hr : (entries.reverse.map Prod.fst).Nodup := by
    rw [List.map_reverse]
    exact List.nodup_reverse.2 h
  refine Option.ext fun value => ?_
  rw [lookup_eq_some_iff_mem hr, lookup_eq_some_iff_mem h, List.mem_reverse]

theorem lookup_of_perm {more : List (String × α)} (hp : entries.Perm more)
    (h : (entries.map Prod.fst).Nodup) : entries.lookup name = more.lookup name := by
  have hm : (more.map Prod.fst).Nodup := (hp.map Prod.fst).nodup_iff.1 h
  refine Option.ext fun value => ?_
  rw [lookup_eq_some_iff_mem h, lookup_eq_some_iff_mem hm, hp.mem_iff]

theorem lookup_filter (allowed : String → Bool) (entries : List (String × α)) (name : String) :
    (entries.filter (allowed ·.1)).lookup name =
      if allowed name then entries.lookup name else none := by
  induction entries with
  | nil => simp
  | cons entry entries ih =>
    obtain ⟨key, text⟩ := entry
    by_cases hk : name = key
    · subst hk
      by_cases ha : allowed name <;> simp [ha, ih]
    · have hne : (name == key) = false := beq_false_of_ne hk
      by_cases ha : allowed key <;> simp [ha, ih, hne, List.lookup_cons]

theorem lt_append_self {cs ds : List Char} (h : ds ≠ []) : cs < cs ++ ds := by
  induction cs with
  | nil =>
    obtain ⟨d, rest, rfl⟩ := List.exists_cons_of_ne_nil h
    exact List.nil_lt_cons d rest
  | cons c cs ih => exact List.cons_lt_cons_iff.2 (.inr ⟨rfl, ih⟩)

namespace NameMap

theorem nodup_of_sorted (h : entries.Pairwise (·.1 < ·.1)) : (entries.map Prod.fst).Nodup :=
  List.pairwise_map.2 (h.imp fun hlt => String.ne_of_lt hlt)

theorem nodup_names (map : NameMap α) : (map.entries.map Prod.fst).Nodup :=
  nodup_of_sorted map.sorted

theorem mem_entries_iff : (name, value) ∈ map.entries ↔ map.get? name = some value :=
  (lookup_eq_some_iff_mem map.nodup_names).symm

theorem mem_names_iff : name ∈ map.names ↔ ∃ value, map.get? name = some value := by
  constructor
  · intro hm
    obtain ⟨entry, he, rfl⟩ := List.mem_map.1 hm
    exact ⟨entry.2, mem_entries_iff.1 he⟩
  · rintro ⟨value, hv⟩
    exact List.mem_map.2 ⟨_, mem_entries_iff.2 hv, rfl⟩

/-- Entries in the order of their names have no other order like that. -/
theorem eq_of_perm_of_sorted {more : List (String × α)} (hp : entries.Perm more)
    (h : entries.Pairwise (·.1 < ·.1)) (hm : more.Pairwise (·.1 < ·.1)) : entries = more := by
  refine hp.eq_of_pairwise (fun first second _ _ hlt hgt => ?_) h hm
  exact (String.lt_irrefl _ (String.lt_trans hlt hgt)).elim

/-- A map is known by its values. -/
theorem eq_of_get? (h : ∀ name, lower.get? name = upper.get? name) : lower = upper := by
  have hp : lower.entries.Perm upper.entries := by
    refine (List.perm_ext_iff_of_nodup (.of_map _ lower.nodup_names)
      (.of_map _ upper.nodup_names)).2 fun entry => ?_
    rw [mem_entries_iff, mem_entries_iff, h]
  have he : lower.entries = upper.entries := eq_of_perm_of_sorted hp lower.sorted upper.sorted
  cases lower
  cases upper
  simpa using he

/-- The map with entries put into it one after another. -/
def putAll (map : NameMap α) (entries : List (String × α)) : NameMap α :=
  entries.foldl (fun map entry => map.insert entry.1 entry.2) map

theorem ofList_eq_putAll (entries : List (String × α)) : ofList entries = empty.putAll entries := rfl

/-- The last entry of a name counts, and what was there before where it has none. -/
theorem get?_putAll (map : NameMap α) (entries : List (String × α)) (name : String) :
    (map.putAll entries).get? name = (entries.reverse.lookup name).or (map.get? name) := by
  rw [putAll]
  exact lookUp_foldl get? (fun map _ _ => get?_insert map) entries map name

/-- Where no name is repeated, a map has just the entries that it is made of. -/
theorem get?_ofList (h : (entries.map Prod.fst).Nodup) :
    (ofList entries).get? name = entries.lookup name := by
  rw [ofList_eq_putAll, get?_putAll, lookup_reverse h, get?_empty, Option.or_none]

/-- A map is made again by its own entries. -/
theorem ofList_entries (map : NameMap α) : ofList map.entries = map := by
  exact eq_of_get? fun _ => get?_ofList map.nodup_names

/-- When some names are refused, all others hold what was last written under them. -/
theorem get?_putAll_filter {refused : Set String} [DecidablePred (· ∈ refused)] (map : NameMap α)
    (writes : List (String × α)) (name : String) :
    (map.putAll (writes.filter (·.1 ∉ refused))).get? name =
      if name ∈ refused then map.get? name
      else (writes.reverse.lookup name).or (map.get? name) := by
  have hl := lookup_filter (fun key => decide (key ∉ refused)) writes.reverse name
  rw [get?_putAll, ← List.filter_reverse, hl]
  by_cases hr : name ∈ refused <;> simp [hr]

/-- One map laid over another: where both have a value, that of the upper one counts. -/
def overlay (lower upper : NameMap α) : NameMap α := lower.putAll upper.entries

theorem get?_overlay (lower upper : NameMap α) (name : String) :
    (lower.overlay upper).get? name = (upper.get? name).or (lower.get? name) := by
  rw [overlay, get?_putAll, lookup_reverse upper.nodup_names]
  rfl

theorem names_subset_overlay (lower upper : NameMap α) :
    lower.names ⊆ (lower.overlay upper).names := by
  intro name hm
  obtain ⟨value, hv⟩ := mem_names_iff.1 hm
  rw [mem_names_iff, get?_overlay, hv]
  cases upper.get? name with
  | none => exact ⟨value, rfl⟩
  | some other => exact ⟨other, rfl⟩

/-- Entries are put into a map as if they had first been put into an empty one. -/
theorem putAll_eq_overlay (map : NameMap α) (entries : List (String × α)) :
    map.putAll entries = map.overlay (empty.putAll entries) := by
  refine eq_of_get? fun name => ?_
  rw [get?_overlay, get?_putAll, get?_putAll, get?_empty, Option.or_none]

/-- No entry is lost when none has the name of another one. -/
theorem perm_putAll_empty (h : (entries.map Prod.fst).Nodup) :
    (empty.putAll entries).entries.Perm entries := by
  refine (List.perm_ext_iff_of_nodup (.of_map _ (nodup_names _)) (.of_map _ h)).2 fun entry => ?_
  rw [mem_entries_iff, get?_putAll, lookup_reverse h, get?_empty, Option.or_none,
    lookup_eq_some_iff_mem h]

/-- Entries that are in the order of their names stay so in a map. -/
theorem entries_putAll_of_sorted (h : entries.Pairwise (·.1 < ·.1)) :
    (empty.putAll entries).entries = entries :=
  eq_of_perm_of_sorted (perm_putAll_empty (nodup_of_sorted h)) (sorted _) h

/-- The order of entries makes no difference when none has the name of another one. -/
theorem putAll_of_perm {more : List (String × α)} (map : NameMap α) (hp : entries.Perm more)
    (h : (entries.map Prod.fst).Nodup) : map.putAll entries = map.putAll more := by
  have hm : (more.map Prod.fst).Nodup := (hp.map Prod.fst).nodup_iff.1 h
  refine eq_of_get? fun name => ?_
  rw [get?_putAll, get?_putAll, lookup_reverse h, lookup_reverse hm, lookup_of_perm hp h]

/-- An entry is lost when it has the name of another one. -/
theorem nodup_of_length_putAll_empty
    (h : (empty.putAll entries).entries.length = entries.length) :
    (entries.map Prod.fst).Nodup := by
  have hp : (empty.putAll entries).names.Perm (entries.map Prod.fst).dedup := by
    refine (List.perm_ext_iff_of_nodup (nodup_names _) (List.nodup_dedup _)).2 fun name => ?_
    change name ∈ names _ ↔ _
    rw [mem_names_iff, List.mem_dedup, get?_putAll, get?_empty, Option.or_none,
      ← Option.isSome_iff_exists, ← Option.ne_none_iff_isSome, ne_eq, lookup_eq_none_iff_not_mem]
    simp
  have hl : (entries.map Prod.fst).dedup.length = (entries.map Prod.fst).length := by
    rw [← hp.length_eq, names, List.length_map, h, List.length_map]
  exact List.dedup_eq_self.1 ((List.dedup_sublist _).eq_of_length hl)

end NameMap

end ScriptHost
