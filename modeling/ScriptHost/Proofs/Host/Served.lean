import Mathlib.Data.Nat.Digits.Defs
import Mathlib.Tactic.SplitIfs
import ScriptHost.Proofs.FileName.Spellings
import ScriptHost.Proofs.Host.Reading

/-! The bound on the names under which a host has text. -/

namespace ScriptHost

variable {host : Host} {disk : Disk} {name text : String} {n : Nat}

/-- A number that tells texts apart: the digit one above their bytes. -/
def Text.code (text : String) : Nat :=
  Nat.ofDigits 256 (text.toByteArray.data.toList.map UInt8.toNat ++ [1])

theorem digits_code (text : String) :
    Nat.digits 256 (Text.code text) = text.toByteArray.data.toList.map UInt8.toNat ++ [1] := by
  refine Nat.digits_ofDigits 256 (by omega) _ ?_ (by simp)
  intro digit hd
  rcases List.mem_append.1 hd with hd | hd
  · obtain ⟨byte, -, rfl⟩ := List.mem_map.1 hd
    exact UInt8.toNat_lt byte
  · rw [List.mem_singleton.1 hd]
    omega

theorem code_injective : Function.Injective Text.code := by
  intro first second h
  have hd := (digits_code first).symm.trans (h ▸ digits_code second)
  have hb := List.map_injective_iff.2 (fun _ _ => UInt8.toNat_inj.1) (List.append_cancel_right hd)
  exact String.toByteArray_inj.1 (ByteArray.ext (Array.ext' hb))

theorem code_lt (h : text.utf8ByteSize ≤ n) : Text.code text < 256 ^ (n + 1) := by
  have hl : (text.toByteArray.data.toList.map UInt8.toNat ++ [1]).length ≤ n + 1 := by
    simpa using h
  refine Nat.lt_of_lt_of_le (Nat.ofDigits_lt_base_pow_length (by omega) ?_)
    (Nat.pow_le_pow_right (by omega) hl)
  rw [← digits_code]
  exact fun _ hd => Nat.digits_lt_base (by omega) hd

theorem encard_short_texts (n : Nat) :
    {text : String | text.utf8ByteSize ≤ n}.encard ≤ Nat.pow 256 (n + 1) := by
  have hm : Set.MapsTo Text.code {text | text.utf8ByteSize ≤ n} (Finset.range (256 ^ (n + 1))) := by
    intro text h
    simpa using code_lt h
  have hc := Set.encard_le_encard_of_injOn hm code_injective.injOn
  rwa [Set.encard_coe_eq_coe_finsetCard, Finset.card_range] at hc

theorem Disk.size_le_of_resolve {purpose : Purpose} {path : String} {spot : Spot}
    (h : disk.resolve purpose path = .ok spot) : path.utf8ByteSize ≤ maxPath := by
  unfold resolve at h
  split_ifs at h with h₁ h₂ h₃
  omega

theorem Disk.resolve_of_readText {path : String} (h : disk.readText path = .ok text) :
    ∃ spot, disk.resolve .look path = .ok spot := by
  unfold readText readBytes at h
  cases hr : disk.resolve .look path with
  | ok spot => exact ⟨spot, rfl⟩
  | error failure => simp [hr] at h

theorem size_le_of_readDisk (h : Host.readDisk disk name = .ok (some text)) :
    (FileName.normalize name).utf8ByteSize ≤ Disk.maxPath := by
  unfold Host.readDisk at h
  cases hr : disk.readText (FileName.normalize name) with
  | ok text =>
    obtain ⟨spot, hs⟩ := Disk.resolve_of_readText hr
    exact Disk.size_le_of_resolve hs
  | error failure => cases failure <;> simp [hr] at h

/-- The names in normal form under which a disk has text. -/
def Disk.texts (disk : Disk) : Set String :=
  {name | (∃ spelling, FileName.normalize spelling = name) ∧
    ∃ text, Host.readDisk disk name = .ok (some text)}

theorem encard_disk_texts_le (disk : Disk) : disk.texts.encard ≤ Host.diskNames := by
  have hs : disk.texts ⊆ {name | name.utf8ByteSize ≤ Disk.maxPath + 3} := by
    rintro name ⟨hn, text, h⟩
    have hl := FileName.size_le_of_normalize hn
    have hd := size_le_of_readDisk h
    change name.utf8ByteSize ≤ Disk.maxPath + 3
    omega
  have hn : Disk.maxPath + 4 = Disk.maxPath + 3 + 1 := rfl
  have hd := encard_short_texts (Disk.maxPath + 3)
  unfold Host.diskNames
  rw [hn]
  exact (Set.encard_le_encard hs).trans hd

/-- A text that a host has was registered or comes from disk. When nothing else is looked up
there, it is that of the library. -/
theorem Host.source_of_readSource (h : host.readSource disk name = .ok (some text)) :
    host.sources.get? name = some text ∨ Host.readDisk disk name = .ok (some text) ∧
      (host.read = .strings false → host.isDefaultLibrary name = true) := by
  unfold readSource at h
  cases hr : host.read with
  | files => exact .inr ⟨by simpa [hr] using h, by simp⟩
  | strings fallback =>
    simp only [hr] at h
    by_cases hl : host.isDefaultLibrary name = true
    · rw [if_pos hl] at h
      exact .inr ⟨h, fun _ => hl⟩
    · rw [if_neg hl] at h
      cases hg : host.sources.get? name with
      | some registered => exact .inl (by simpa [hg] using h)
      | none =>
        cases fallback with
        | false => simp [hg] at h
        | true => exact .inr ⟨by simpa [hg] using h, by simp⟩

theorem encard_registered_le (host : Host) :
    {name | ∃ text, host.sources.get? name = some text}.encard ≤ host.sources.size :=
  FixedHost.encard_lookup_le host.sources.entries

/-- A host that looks up nothing but its library on disk has text under its registered names, and
under names in normal form that stand for the library. -/
theorem texts_subset_of_strings (hr : host.read = .strings false) (disk : Disk) :
    (host.answers disk).texts ⊆ {name | ∃ text, host.sources.get? name = some text} ∪
      {name | (∃ spelling, FileName.normalize spelling = name) ∧
        FileName.normalize name = FileName.normalize host.defaultLibrary} := by
  rintro name ⟨hn, text, h⟩
  rcases Host.source_of_readSource h with hg | ⟨-, hl⟩
  · exact .inl ⟨text, hg⟩
  · exact .inr ⟨hn, by simpa [Host.isDefaultLibrary] using hl hr⟩

/-- A host has text under no more names than it admits. -/
theorem encard_texts_answers (host : Host) (disk : Disk) :
    (host.answers disk).texts.encard ≤ host.served := by
  by_cases hr : host.read = .strings false
  · have hserved : host.served = host.sources.size + 3 := by simp [Host.served, hr]
    rw [hserved]
    refine (Set.encard_le_encard (texts_subset_of_strings hr disk)).trans
      ((Set.encard_union_le _ _).trans ?_)
    exact_mod_cast add_le_add (encard_registered_le host) (FileName.encard_normalize_eq_le _)
  · have hs : (host.answers disk).texts ⊆
        {name | ∃ text, host.sources.get? name = some text} ∪ disk.texts := by
      rintro name ⟨hn, text, h⟩
      rcases Host.source_of_readSource h with hg | ⟨hd, -⟩
      · exact .inl ⟨text, hg⟩
      · exact .inr ⟨hn, text, hd⟩
    have hserved : host.served = host.sources.size + Host.diskNames := by
      unfold Host.served
      split
      · rename_i he
        exact absurd he hr
      · rfl
    rw [hserved]
    refine (Set.encard_le_encard hs).trans ((Set.encard_union_le _ _).trans ?_)
    exact_mod_cast add_le_add (encard_registered_le host) (encard_disk_texts_le disk)

/-- No other name stands for a library that does not begin with a drive. -/
theorem encard_texts_of_strings (hr : host.read = .strings false)
    (hd : ∀ drive rest, (FileName.normalize host.defaultLibrary).toList = drive :: ':' :: rest →
      drive.isAlpha = false) (disk : Disk) :
    (host.answers disk).texts.encard ≤ (host.sources.size + 1 : Nat) := by
  have hs : (host.answers disk).texts ⊆ {name | ∃ text, host.sources.get? name = some text} ∪
      {FileName.normalize host.defaultLibrary} := by
    intro name h
    rcases texts_subset_of_strings hr disk h with hg | ⟨hn, hl⟩
    · exact .inl hg
    · rw [← hl] at hd
      exact .inr (hl ▸ FileName.eq_normalize_of_no_drive hn hd)
  refine (Set.encard_le_encard hs).trans ((Set.encard_union_le _ _).trans ?_)
  rw [Set.encard_singleton]
  exact_mod_cast add_le_add_left (encard_registered_le host) 1

end ScriptHost
