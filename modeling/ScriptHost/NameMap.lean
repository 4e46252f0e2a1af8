/-! Maps from names to values, kept in increasing order of the names. -/

namespace ScriptHost

/-- Puts a value at a name into a list that is sorted by name, in place of any value there. -/
def insertByName {α : Type} (name : String) (value : α) : List (String × α) → List (String × α)
  | [] => [(name, value)]
  | entry :: rest =>
    if name < entry.1 then (name, value) :: entry :: rest
    else if name = entry.1 then (name, value) :: rest
    else entry :: insertByName name value rest

variable {α : Type} {name key : String} {value : α} {entries : List (String × α)}

theorem fst_of_mem_insertByName {entry : String × α} (h : entry ∈ insertByName name value entries) :
    entry.1 = name ∨ entry ∈ entries := by
  induction entries with
  | nil => simp_all [insertByName]
  | cons first rest ih =>
    grind [insertByName]

theorem insertByName_sorted (h : entries.Pairwise (·.1 < ·.1)) :
    (insertByName name value entries).Pairwise (·.1 < ·.1) := by
  induction entries with
  | nil => simp [insertByName]
  | cons first rest ih =>
    obtain ⟨hfirst, hrest⟩ := List.pairwise_cons.1 h
    rw [insertByName]
    split
    · rename_i hlt
      refine List.pairwise_cons.2 ⟨fun entry he => ?_, h⟩
      obtain rfl | he := List.mem_cons.1 he
      · exact hlt
      · exact String.lt_trans hlt (hfirst entry he)
    · split
      · rename_i heq
        exact List.pairwise_cons.2 ⟨fun entry he => heq ▸ hfirst entry he, hrest⟩
      · rename_i hlt hne
        have hgt : first.1 < name := by
          obtain h | h | h := Std.lt_trichotomy name first.1
          · exact absurd h hlt
          · exact absurd h hne
          · exact h
        refine List.pairwise_cons.2 ⟨fun entry he => ?_, ih hrest⟩
        obtain h | h := fst_of_mem_insertByName he
        · exact h ▸ hgt
        · exact hfirst entry h

theorem lookup_insertByName :
    (insertByName name value entries).lookup key =
      if key = name then some value else entries.lookup key := by
  induction entries with
  | nil => grind [insertByName]
  | cons first rest ih => grind [insertByName]

/-- A finite map whose entries stand in increasing order of their names. -/
structure NameMap (α : Type) where
  entries : List (String × α)
  sorted : entries.Pairwise (·.1 < ·.1)

namespace NameMap

def empty : NameMap α := ⟨[], .nil⟩

def get? (map : NameMap α) (name : String) : Option α := map.entries.lookup name

def insert (map : NameMap α) (name : String) (value : α) : NameMap α :=
  ⟨insertByName name value map.entries, insertByName_sorted map.sorted⟩

/-- The names that have a value, in increasing order. -/
def names (map : NameMap α) : List String := map.entries.map Prod.fst

def values (map : NameMap α) : List α := map.entries.map Prod.snd

def isEmpty (map : NameMap α) : Bool := map.entries.isEmpty

def size (map : NameMap α) : Nat := map.entries.length

/-- The entries of a list put into a map one after another: the last entry of a name stays. -/
def ofList (entries : List (String × α)) : NameMap α :=
  entries.foldl (fun map entry => map.insert entry.1 entry.2) empty

@[simp] theorem get?_empty : (empty : NameMap α).get? name = none := rfl

theorem get?_insert (map : NameMap α) :
    (map.insert name value).get? key = if key = name then some value else map.get? key :=
  lookup_insertByName

end NameMap

end ScriptHost
