import ScriptHost.Disk.Change
import ScriptHost.Proofs.Closure.Agree
import ScriptHost.Proofs.NameMap

/-! Texts that are registered with a host, that are on its disk, or of which some are here and the
others there: a program without analysis is the same. -/

namespace ScriptHost

/-- What a host has to offer on its platform: texts by their names, and an answer for its
library. -/
structure Offer where
  texts : NameMap String
  library : String
  answer : ReadAnswer
  platform : Platform := {}

variable {offer : Offer} {roots : List String} {options : Options} {names : Set String}
  {host : Host} {disk : Disk} {name text : String}

namespace Offer

/-- The library answers for its own name, and the texts for all others. -/
def fixed (offer : Offer) : FixedHost where
  read name :=
    if name = FileName.normalize offer.library then offer.answer else .ok (offer.texts.get? name)
  write _ _ _ := .ok ()
  directory := .ok ""
  library := offer.library
  canonicalName := offer.platform.canonicalName

theorem read_fixed (offer : Offer) (name : String) : offer.fixed.read name =
    if name = FileName.normalize offer.library then offer.answer
    else .ok (offer.texts.get? name) := rfl

/-- The names besides the library that a program asks for. -/
def asked (offer : Offer) (roots : List String) (options : Options) : Set String :=
  {name | Reached offer.fixed options roots name ∧ name ≠ FileName.normalize offer.library}

theorem encard_texts_fixed (offer : Offer) :
    offer.fixed.texts.encard ≤ (offer.texts.entries.length + 1 : Nat) := by
  have hs : offer.fixed.texts ⊆ {name | ∃ text, offer.texts.entries.lookup name = some text} ∪
      {FileName.normalize offer.library} := by
    rintro name ⟨-, text, h⟩
    by_cases hl : name = FileName.normalize offer.library
    · exact .inr hl
    · have ht : offer.texts.get? name = some text := by simpa [fixed, hl] using h
      exact .inl ⟨text, ht⟩
  refine (Set.encard_le_encard hs).trans ((Set.encard_union_le _ _).trans ?_)
  rw [Set.encard_singleton]
  exact_mod_cast add_le_add_left (FixedHost.encard_lookup_le _) 1

end Offer

/-- A disk has the text of a map under a name, or no file where the map has no text. -/
def Disk.Stores (disk : Disk) (texts : NameMap String) (name : String) : Prop :=
  disk.readText name = (texts.get? name).elim (.error .notFound) .ok

/-- The ways in which a host comes by texts: all of them are registered, all are on its disk, or
some are registered and the others are on disk. The disk counts for the names that are asked for. -/
inductive Host.Holds (texts : NameMap String) (names : Set String) (host : Host) (disk : Disk) :
    Prop where
  | registered (reads : host.read = .strings false)
      (texts : ∀ name, host.sources.get? name = texts.get? name)
  | stored (reads : host.read = .files) (texts : ∀ name ∈ names, disk.Stores texts name)
  | split (reads : host.read = .strings true) (rest : NameMap String)
      (texts : ∀ name, texts.get? name = (host.sources.get? name).or (rest.get? name))
      (stored : ∀ name ∈ names, disk.Stores rest name)

/-- A host holds the texts of an offer, and its library has the answer of the offer on disk. -/
structure Host.Offers (offer : Offer) (names : Set String) (host : Host) (disk : Disk) : Prop where
  platform : host.platform = offer.platform
  library : host.defaultLibrary = offer.library
  answer : Host.readDisk disk (FileName.normalize offer.library) = offer.answer
  texts : host.Holds offer.texts names disk

/-- The names that a program asks for are their own normal forms, unless one that it starts from has
a drive. -/
theorem normalize_of_reached {answers : FixedHost} (h : Reached answers options roots name)
    (hr : ∀ root ∈ roots, ':' ∉ root.toList)
    (hl : ∀ library, options.defaultLibrary = some library → ':' ∉ library.toList) :
    FileName.normalize name = name := by
  cases h with
  | library _ hn => exact FileName.normalize_of_no_colon (hl _ hn)
  | root hn => exact FileName.normalize_of_no_colon (hr _ hn)
  | reference => exact FileName.normalize_normalize_combine _ _

theorem readDisk_of_stores {texts : NameMap String} (h : disk.Stores texts name)
    (hn : FileName.normalize name = name)
    (hm : ∀ text, texts.get? name = some text → text.toList.head? ≠ some Text.byteOrderMark) :
    Host.readDisk disk name = .ok (texts.get? name) := by
  unfold Host.readDisk
  rw [hn, h]
  cases ht : texts.get? name with
  | none => rfl
  | some text => simp only [Option.elim_some, Text.dropByteOrderMark_of_unmarked (hm text ht)]

/-- However a host holds its texts, it answers with them. -/
theorem Host.Offers.read_eq (h : host.Offers offer names disk) (ha : name ∈ names)
    (hn : FileName.normalize name = name) (hne : name ≠ FileName.normalize offer.library)
    (hm : ∀ text, offer.texts.get? name = some text →
      text.toList.head? ≠ some Text.byteOrderMark) :
    host.readSource disk name = .ok (offer.texts.get? name) := by
  have hl : host.isDefaultLibrary name = false := by
    rw [Host.isDefaultLibrary, hn, h.library]
    exact beq_false_of_ne hne
  cases h.texts with
  | registered reads texts =>
    simp only [Host.readSource, reads, hl, texts, Bool.false_eq_true, if_false]
    cases offer.texts.get? name <;> rfl
  | stored reads texts =>
    simp only [Host.readSource, reads]
    exact readDisk_of_stores (texts name ha) hn hm
  | split reads rest texts stored =>
    simp only [Host.readSource, reads, hl, Bool.false_eq_true, if_false, if_true]
    have ht := texts name
    cases hr : host.sources.get? name with
    | some text => rw [ht, hr, Option.some_or]
    | none =>
      rw [hr, Option.none_or] at ht
      rw [ht] at hm ⊢
      exact readDisk_of_stores (stored name ha) hn hm

theorem Host.Offers.read_library (h : host.Offers offer names disk)
    (hn : FileName.normalize name = name) (he : name = FileName.normalize offer.library) :
    host.readSource disk name = offer.answer := by
  have hl : host.isDefaultLibrary name = true := by
    rw [Host.isDefaultLibrary, hn, h.library, he]
    exact beq_self_eq_true _
  have hd : Host.readDisk disk name = offer.answer := he ▸ h.answer
  cases hr : host.read <;> simp only [Host.readSource, hr, hl, hd, if_true]

theorem Host.Offers.program_eq (h : host.Offers offer (offer.asked roots options) disk)
    (hm : ∀ name text, offer.texts.get? name = some text →
      text.toList.head? ≠ some Text.byteOrderMark)
    (hr : ∀ root ∈ roots, ':' ∉ root.toList)
    (hl : ∀ library, options.defaultLibrary = some library → ':' ∉ library.toList) :
    (host.serve (Engine.verbatim.build host.served roots options) disk).answer =
      (Engine.verbatim.build (offer.texts.entries.length + 1) roots options).value offer.fixed := by
  rw [serve_build_verbatim, value_build_verbatim]
  have hc : offer.fixed.canonicalName = (host.answers disk).canonicalName :=
    congrArg Platform.canonicalName h.platform.symm
  refine congrArg (Closure.program · options) (Closure.value_ofRoots_of_agree
    offer.encard_texts_fixed (encard_texts_answers host disk) hc fun name hreached => ?_).symm
  have hn := normalize_of_reached hreached hr hl
  -- Even a host with all texts registered reads its library from disk.
  by_cases he : name = FileName.normalize offer.library
  · rw [Offer.read_fixed, if_pos he]
    exact (h.read_library hn he).symm
  · rw [Offer.read_fixed, if_neg he]
    exact (h.read_eq ⟨hreached, he⟩ hn he (hm name)).symm

/-- Hosts that hold the same texts lead to the same program, its sources in the same order and its
diagnostics alike, whichever texts are registered and whichever are on disk. No text begins with a
byte order mark, which is lost on the way from a disk, and the library and the roots name no drive:
the normal form of a name without one is its own. -/
theorem same_program_of_offers (offer : Offer) (roots : List String) (options : Options)
    (hm : ∀ name text, offer.texts.get? name = some text →
      text.toList.head? ≠ some Text.byteOrderMark)
    (hr : ∀ root ∈ roots, ':' ∉ root.toList) (hl : ':' ∉ offer.library.toList)
    (ho : ∀ library, options.defaultLibrary = some library → library = offer.library)
    (first second : Host) (disk other : Disk)
    (hfirst : first.Offers offer (offer.asked roots options) disk)
    (hsecond : second.Offers offer (offer.asked roots options) other) :
    (first.serve (Engine.verbatim.build first.served roots options) disk).answer =
      (second.serve (Engine.verbatim.build second.served roots options) other).answer := by
  have hlibrary : ∀ library, options.defaultLibrary = some library → ':' ∉ library.toList :=
    fun library h => ho library h ▸ hl
  exact (hfirst.program_eq hm hr hlibrary).trans (hsecond.program_eq hm hr hlibrary).symm

/-- A disk with text files and nothing else. -/
def Disk.holding (files : List (String × String)) : Disk :=
  Disk.plantAll ⟨.directory [], .root⟩ (files.map fun file => (file.1, .file file.2.toUTF8))

/-- A library, and a source that refers to another one and to a name without text. -/
def dualOffer : Offer where
  texts := .ofList [
    ("a.ts", "/// <reference path='lib/b.ts' />\n/// <reference path='gone.ts' />\nvar a;\n"),
    ("lib/b.ts", "var b;\n")]
  library := "lib.d.ts"
  answer := .ok (some "declare var c;\n")

/-- A host whose library is that of the offer. -/
def dualHost (read : ReadStrategy) (sources : List (String × String)) : Host :=
  { configuration := { library := some dualOffer.library }, read := read
    sources := .ofList sources, sourceNames := sources.map Prod.fst }

theorem same_program_of_three_hosts :
    let options : Options := { defaultLibrary := some dualOffer.library }
    let program := fun (host : Host) (disk : Disk) =>
      (host.serve (Engine.verbatim.build host.served ["./a.ts"] options) disk).answer
    let library := ("lib.d.ts", "declare var c;\n")
    let texts := dualOffer.texts.entries
    let registered := program (dualHost (.strings false) texts) (.holding [library])
    registered = program (dualHost .files []) (.holding (library :: texts)) ∧
    registered = program (dualHost (.strings true) (texts.take 1))
      (.holding (library :: texts.drop 1)) ∧
    registered.sources.map SourceText.name = ["lib.d.ts", "lib/b.ts", "a.ts"] ∧
    registered.early.length = 1 := by
  intro options program library texts registered
  have hnames : ∀ name ∈ dualOffer.asked ["./a.ts"] options,
      name = "a.ts" ∨ name = "lib/b.ts" ∨ name = "gone.ts" := by
    rintro name ⟨hreached, hne⟩
    obtain ⟨hsound, hcovers⟩ :=
      Closure.sound_ofRoots dualOffer.encard_texts_fixed ["./a.ts"] options
    have hs := (hsound.mem_iff_reached hcovers fun _ _ _ _ h => h).2 hreached
    have hreads : (Closure.ofRoots (dualOffer.texts.entries.length + 1) ["./a.ts"] options).reads
        dualOffer.fixed = ["lib.d.ts", "a.ts", "lib/b.ts", "gone.ts"] := by decide +kernel
    have hl : FileName.normalize dualOffer.library = "lib.d.ts" := by decide
    rw [hreads] at hs
    rw [hl] at hne
    simpa [hne] using hs
  have hm : ∀ name text, dualOffer.texts.get? name = some text →
      text.toList.head? ≠ some Text.byteOrderMark := by
    intro name text ht
    have hu : ∀ entry ∈ dualOffer.texts.entries,
        entry.2.toList.head? ≠ some Text.byteOrderMark := by decide
    exact hu _ (NameMap.mem_entries_iff.2 ht)
  have hregistered : (dualHost (.strings false) texts).Offers dualOffer
      (dualOffer.asked ["./a.ts"] options) (.holding [library]) :=
    ⟨rfl, rfl, by decide +kernel, .registered rfl fun name =>
      congrArg (NameMap.get? · name) (NameMap.ofList_entries _)⟩
  have hstored : (dualHost .files []).Offers dualOffer
      (dualOffer.asked ["./a.ts"] options) (.holding (library :: texts)) := by
    refine ⟨rfl, rfl, by decide +kernel, .stored rfl fun name hn => ?_⟩
    unfold Disk.Stores
    rcases hnames name hn with rfl | rfl | rfl <;> decide +kernel
  have hsplit : (dualHost (.strings true) (texts.take 1)).Offers dualOffer
      (dualOffer.asked ["./a.ts"] options) (.holding (library :: texts.drop 1)) := by
    refine ⟨rfl, rfl, by decide +kernel, .split rfl (.ofList (texts.drop 1)) ?_ fun name hn => ?_⟩
    · intro name
      have he : texts = texts.take 1 ++ (NameMap.ofList (texts.drop 1)).entries := by decide +kernel
      exact (congrArg (List.lookup name) he).trans List.lookup_append
    · unfold Disk.Stores
      rcases hnames name hn with rfl | rfl | rfl <;> decide +kernel
  refine ⟨?_, ?_, by decide +kernel, by decide +kernel⟩
  · exact same_program_of_offers dualOffer ["./a.ts"] options hm (by decide) (by decide)
      (by simp [options]) _ _ _ _ hregistered hstored
  · exact same_program_of_offers dualOffer ["./a.ts"] options hm (by decide) (by decide)
      (by simp [options]) _ _ _ _ hregistered hsplit

end ScriptHost
