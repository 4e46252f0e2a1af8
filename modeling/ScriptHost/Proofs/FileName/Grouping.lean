import ScriptHost.Proofs.FileName.Normal

/-! Names that are resolved one after another. It makes no difference how the steps are grouped: the
segments of a name act on those of the directory it is seen from, and climb no further than its
root. -/

namespace ScriptHost.FileName

/-- The segments that a name leads to from those of a directory. -/
def along (rooted : Bool) (segments : List (List Char)) (cs : List Char) : List (List Char) :=
  ((cs.splitOn '/').foldl (push rooted) segments.reverse).reverse

/-- A name with the root slash or with none. -/
def shown (rooted : Bool) (segments : List (List Char)) : List Char :=
  if rooted then '/' :: join segments else join segments

/-- Whether a name begins at the root. -/
def isAbsolute (cs : List Char) : Bool := cs.head? == some '/'

/-- A name without backslashes and colons, so that it has no drive. -/
structure Driveless (cs : List Char) : Prop where
  backslash : '\\' ∉ cs
  colon : ':' ∉ cs

/-- A name that has no drive and does not begin with a server. -/
structure Ordinary (cs : List Char) : Prop extends Driveless cs where
  serverless : ¬ ['/', '/'] <+: cs

variable {a b c cs ds top segment : List Char} {segments stack inner below : List (List Char)}
  {rooted : Bool}

theorem push_of_idle (h : isIdle segment = true) : push rooted stack segment = stack := by
  unfold push
  exact if_pos h

theorem push_up_of_plain (h : top ≠ up) : push rooted (top :: below) up = below := by
  unfold push
  rw [if_neg (by decide), if_pos (show up = ['.', '.'] from rfl)]
  exact if_neg h

theorem foldl_push_cons_reverse (segment : List Char) :
    (segment :: inner).reverse.foldl (push rooted) stack =
      push rooted (inner.reverse.foldl (push rooted) stack) segment := by
  rw [List.reverse_cons, List.foldl_append, List.foldl_cons, List.foldl_nil]

/-- What a segment does to segments that are not yet in their place, it does once they are. -/
theorem foldl_push_push (hi : ∀ s ∈ inner, isIdle s = false) (segment : List Char) :
    (push false inner segment).reverse.foldl (push rooted) stack =
      push rooted (inner.reverse.foldl (push rooted) stack) segment := by
  by_cases hidle : isIdle segment = true
  · rw [push_of_idle hidle, push_of_idle hidle]
  have hbusy : isIdle segment = false := by simpa using hidle
  by_cases hu : segment = up
  · subst segment
    cases inner with
    | nil => rfl
    | cons top below =>
      by_cases ht : top = up
      · subst top
        exact foldl_push_cons_reverse up
      · rw [push_up_of_plain ht, foldl_push_cons_reverse,
          push_of_plain (hi top List.mem_cons_self) ht, push_up_of_plain ht]
  · rw [push_of_plain hbusy hu, foldl_push_cons_reverse]

theorem foldl_push_settled (hw : ∀ s ∈ segments, '/' ∉ s) :
    (segments.foldl (push false) []).reverse.foldl (push rooted) stack =
      segments.foldl (push rooted) stack := by
  induction segments using List.reverseRecOn with
  | nil => rfl
  | append_singleton segments segment ih =>
    have hw' : ∀ s ∈ segments, '/' ∉ s := fun s hs => hw s (List.mem_append_left _ hs)
    have hn : Normalized false (segments.foldl (push false) []).reverse :=
      normalized_foldl hw' (normalized_nil false)
    have hi : ∀ s ∈ segments.foldl (push false) [], isIdle s = false := by
      intro s hs
      exact (hn.proper s (List.mem_reverse.2 hs)).busy
    rw [List.foldl_append, List.foldl_append, List.foldl_cons, List.foldl_nil, List.foldl_cons,
      List.foldl_nil, foldl_push_push hi, ih hw']

theorem resolve_eq_along (rooted : Bool) (cs : List Char) : resolve rooted cs = along rooted [] cs :=
  rfl

theorem normalized_along (h : Normalized rooted segments) (cs : List Char) :
    Normalized rooted (along rooted segments cs) := by
  refine normalized_foldl (fun _ hs => not_mem_of_mem_splitOn hs) ?_
  rwa [List.reverse_reverse]

theorem along_append_slash (cs ds : List Char) :
    along rooted segments (cs ++ '/' :: ds) = along rooted (along rooted segments cs) ds := by
  rw [along, List.splitOn_append_cons_self, List.foldl_append, along, along, List.reverse_reverse]

@[simp] theorem along_nil : along rooted segments [] = segments := by
  rw [along, List.splitOn_nil, List.foldl_cons, List.foldl_nil, push_of_idle rfl,
    List.reverse_reverse]

theorem along_slash (cs : List Char) : along rooted segments ('/' :: cs) = along rooted segments cs := by
  have h : along rooted segments ([] ++ '/' :: cs) = along rooted (along rooted segments []) cs :=
    along_append_slash [] cs
  rwa [along_nil] at h

theorem foldl_splitOn_join (h : Normalized rooted segments) (other : Bool) :
    ((join segments).splitOn '/').foldl (push other) stack = segments.foldl (push other) stack := by
  by_cases hn : segments = []
  · subst segments
    rfl
  · rw [join, List.splitOn_intercalate '/' (fun s hs => (h.proper s hs).whole) hn]

/-- Where a relative name and then another one lead to, the name of both leads to at once. -/
theorem along_join_along (segments : List (List Char)) (b c : List Char) :
    along rooted segments (join (along false (resolve false b) c)) =
      along rooted (along rooted segments b) c := by
  have hn := normalized_along (normalized_resolve false b) c
  have hw : ∀ s ∈ b.splitOn '/' ++ c.splitOn '/', '/' ∉ s := by
    intro s hs
    rcases List.mem_append.1 hs with hs | hs <;> exact not_mem_of_mem_splitOn hs
  have hboth : along false (resolve false b) c =
      ((b.splitOn '/' ++ c.splitOn '/').foldl (push false) []).reverse := by
    rw [along, resolve, List.reverse_reverse, List.foldl_append]
  rw [along, foldl_splitOn_join hn, hboth, foldl_push_settled hw, List.foldl_append, along, along,
    List.reverse_reverse]

theorem resolve_shown (h : Normalized rooted segments) :
    resolve rooted (shown rooted segments) = segments := by
  cases rooted with
  | false => exact resolve_join h
  | true =>
    rw [shown, if_pos rfl, resolve_eq_along, along_slash]
    exact resolve_join h

theorem isAbsolute_shown (h : Normalized rooted segments) :
    isAbsolute (shown rooted segments) = rooted := by
  cases rooted with
  | false => simpa [isAbsolute, shown] using head?_join h.proper
  | true => rfl

theorem isAbsolute_eq_true : isAbsolute cs = true ↔ ∃ rest, cs = '/' :: rest := by
  cases cs <;> simp [isAbsolute]

theorem isAbsolute_append (hn : cs ≠ []) : isAbsolute (cs ++ ds) = isAbsolute cs := by
  obtain ⟨c, rest, rfl⟩ := List.exists_cons_of_ne_nil hn
  rfl

theorem splitRoot_of_relative (hc : ':' ∉ cs) (h : isAbsolute cs = false) :
    splitRoot cs = ([], cs) := by
  refine (rooting_splitRoot cs).resolve_right fun hr => ?_
  generalize (splitRoot cs).1 = start at hr
  generalize (splitRoot cs).2 = rest at hr
  cases hr with
  | slash | server | bare => simp [isAbsolute] at h
  | drive | relative => simp at hc

theorem root_slash_ne_nil (rest : List Char) : root ('/' :: rest) ≠ [] := by
  by_cases hr : rest.head? = some '/'
  · obtain ⟨tail, rfl⟩ := List.head?_eq_some_iff.1 hr
    simp only [root, splitRoot]
    split <;> simp
  · rw [root, splitRoot_of_rooting (.slash hr)]
    simp

theorem root_eq_nil_iff (hc : ':' ∉ cs) : root cs = [] ↔ isAbsolute cs = false := by
  constructor
  · intro h
    by_contra ha
    obtain ⟨rest, rfl⟩ := isAbsolute_eq_true.1 (by simpa using ha)
    exact root_slash_ne_nil rest h
  · intro h
    rw [root, splitRoot_of_relative hc h]

theorem Ordinary.head?_ne {rest : List Char} (h : Ordinary ('/' :: rest)) :
    rest.head? ≠ some '/' := by
  intro hr
  obtain ⟨tail, rfl⟩ := List.head?_eq_some_iff.1 hr
  exact h.serverless ⟨tail, rfl⟩

theorem Driveless.ordinary (h : Driveless cs) (hr : isAbsolute cs = false) : Ordinary cs := by
  refine ⟨h, ?_⟩
  rintro ⟨rest, rfl⟩
  simp [isAbsolute] at hr

/-- The normal form of an ordinary name: where its segments lead to from its root. -/
theorem normalForm_of_ordinary (h : Ordinary cs) :
    normalForm cs = shown (isAbsolute cs) (resolve (isAbsolute cs) cs) := by
  have hs := slashed_of_not_mem h.backslash
  cases ha : isAbsolute cs with
  | false =>
    rw [normalForm_of_unrooted (by rw [hs, splitRoot_of_relative h.colon ha]), hs]
    rfl
  | true =>
    obtain ⟨rest, rfl⟩ := isAbsolute_eq_true.1 ha
    have hr : Rooting (slashed ('/' :: rest)) ['/'] rest := by
      rw [hs]
      exact .slash h.head?_ne
    rw [normalForm_of_rooting hr, resolve_eq_along true ('/' :: rest), along_slash]
    rfl

theorem Driveless.normalForm (h : Driveless cs) : Driveless (normalForm cs) where
  backslash := slashed_normalForm cs ▸ backslash_not_mem_slashed (FileName.normalForm cs)
  colon hm := by
    rcases eq_or_mem_of_mem_normalForm hm with hm | hm
    · simp at hm
    · exact h.colon (mem_slashed_of_ne hm (by decide))

theorem serverless_shown (h : Normalized rooted segments) :
    ¬ ['/', '/'] <+: shown rooted segments := by
  have hh := head?_join h.proper
  rintro ⟨rest, hr⟩
  cases rooted with
  | false => simp [← show _ = join segments from hr] at hh
  | true =>
    have hj : '/' :: rest = join segments := (List.cons.inj hr).2
    simp [← hj] at hh

theorem Ordinary.normalForm (h : Ordinary cs) : Ordinary (normalForm cs) := by
  refine ⟨h.toDriveless.normalForm, ?_⟩
  rw [normalForm_of_ordinary h]
  exact serverless_shown (normalized_resolve _ _)

theorem Driveless.append (ha : Driveless a) (hb : Driveless b) : Driveless (a ++ b) :=
  ⟨by simp [ha.backslash, hb.backslash], by simp [ha.colon, hb.colon]⟩

theorem Ordinary.append (ha : Ordinary a) (hb : Driveless b) (hn : a ≠ [])
    (hr : isAbsolute b = true → a ≠ ['/']) : Ordinary (a ++ b) := by
  refine ⟨ha.toDriveless.append hb, ?_⟩
  rintro ⟨rest, hrest⟩
  cases a with
  | nil => exact hn rfl
  | cons first tail =>
    obtain ⟨rfl, htail⟩ := List.cons.inj hrest
    cases tail with
    | nil => exact hr (isAbsolute_eq_true.2 ⟨rest, htail.symm⟩) rfl
    | cons second tail =>
      obtain ⟨rfl, -⟩ := List.cons.inj htail
      exact ha.serverless ⟨tail, rfl⟩

theorem root_of_ordinary (h : Ordinary cs) : root cs = if isAbsolute cs then ['/'] else [] := by
  cases ha : isAbsolute cs with
  | false => exact (root_eq_nil_iff h.colon).2 ha
  | true =>
    obtain ⟨rest, rfl⟩ := isAbsolute_eq_true.1 ha
    rw [root, splitRoot_of_rooting (.slash h.head?_ne)]
    rfl

/-- A relative name seen from a directory is the normal form of one name, however the two are put
together: its segments are those of the directory and then its own. -/
theorem exists_combined_eq (ha : Ordinary a) (hb : Driveless b) (hr : isAbsolute b = false) :
    ∃ cs, Ordinary cs ∧ combined a b = normalForm cs ∧ isAbsolute cs = isAbsolute a ∧
      ∀ rooted, resolve rooted cs = along rooted (resolve rooted a) b := by
  have hroot : root b = [] := (root_eq_nil_iff hb.colon).2 hr
  by_cases hn : a = []
  · subst a
    refine ⟨b, hb.ordinary hr, ?_, hr, fun rooted => ?_⟩
    · simp [combined]
    · rw [resolve_eq_along, resolve_eq_along, along_nil]
  by_cases hl : a.getLast? = some '/'
  · refine ⟨a ++ b, ha.append hb hn (by simp [hr]), ?_, isAbsolute_append hn, fun rooted => ?_⟩
    · simp [combined, hn, hroot, hl]
    · obtain ⟨front, rfl⟩ := List.getLast?_eq_some_iff.1 hl
      rw [List.append_assoc, List.singleton_append, resolve_eq_along, along_append_slash,
        resolve_eq_along, along_append_slash, along_nil]
  · have hne : root a ≠ a := by
      rw [root_of_ordinary ha]
      split
      · rintro rfl
        exact hl rfl
      · exact Ne.symm hn
    have hslash : a ≠ ['/'] := by
      rintro rfl
      exact hl rfl
    have hdriveless : Driveless ('/' :: b) := ⟨by simp [hb.backslash], by simp [hb.colon]⟩
    refine ⟨a ++ '/' :: b, ha.append hdriveless hn fun _ => hslash, ?_, isAbsolute_append hn,
      fun rooted => ?_⟩
    · simp [combined, hn, hroot, hl, hne]
    · rw [resolve_eq_along, along_append_slash]
      rfl

theorem combined_of_relative (ha : Ordinary a) (hb : Driveless b) (hr : isAbsolute b = false) :
    combined a b = shown (isAbsolute a) (along (isAbsolute a) (resolve (isAbsolute a) a) b) := by
  obtain ⟨cs, hcs, hc, hi, hs⟩ := exists_combined_eq ha hb hr
  rw [hc, normalForm_of_ordinary hcs, hi, hs]

theorem combined_of_rooted (h : root b ≠ []) : combined a b = normalForm b := by
  simp [combined, h]

theorem combined_of_absolute (hb : Driveless b) (h : isAbsolute b = true) :
    combined a b = normalForm b :=
  combined_of_rooted fun hn => by simp [(root_eq_nil_iff hb.colon).1 hn] at h

theorem root_normalForm (hb : '\\' ∉ cs) (h : root cs ≠ []) : root (normalForm cs) = root cs := by
  rcases rooting_splitRoot cs with hr | hr
  · rw [root, hr] at h
    exact absurd rfl h
  · have hn : normalForm cs = root cs ++ join (resolve true (splitRoot cs).2) :=
      normalForm_of_rooting (by rwa [slashed_of_not_mem hb])
    have hs := congrArg Prod.fst (splitRoot_of_rooting hr.rejoin)
    rw [hn]
    exact hs

theorem exists_normalForm_eq_combined (ha : Ordinary a) (hb : Driveless b) :
    ∃ cs, combined a b = normalForm cs ∧ Driveless cs ∧ (Ordinary b → Ordinary cs) := by
  cases hr : isAbsolute b with
  | true => exact ⟨b, combined_of_absolute hb hr, hb, id⟩
  | false =>
    obtain ⟨cs, hcs, hc, -, -⟩ := exists_combined_eq ha hb hr
    exact ⟨cs, hc, hcs.toDriveless, fun _ => hcs⟩

theorem Driveless.combined (ha : Ordinary a) (hb : Driveless b) : Driveless (combined a b) := by
  obtain ⟨cs, hc, hd, -⟩ := exists_normalForm_eq_combined ha hb
  rw [hc]
  exact hd.normalForm

theorem Ordinary.combined (ha : Ordinary a) (hb : Ordinary b) : Ordinary (combined a b) := by
  obtain ⟨cs, hc, -, hcs⟩ := exists_normalForm_eq_combined ha hb.toDriveless
  rw [hc]
  exact (hcs hb).normalForm

/-- Three names lead to the same one, whichever two of them are put together first. -/
theorem combined_combined (ha : Ordinary a) (hb : Ordinary b) (hc : Driveless c) :
    combined (combined a b) c = combined a (combined b c) := by
  have hab : Ordinary (combined a b) := ha.combined hb
  have hdriveless : Driveless (combined b c) := Driveless.combined hb hc
  by_cases hrooted : root c = []
  swap
  · have hn : root (normalForm c) ≠ [] := by rwa [root_normalForm hc.backslash hrooted]
    rw [combined_of_rooted hrooted, combined_of_rooted hrooted, combined_of_rooted hn,
      normalForm_of_no_colon hc.colon]
  have hrelative : isAbsolute c = false := (root_eq_nil_iff hc.colon).1 hrooted
  obtain ⟨cs, hcs, hbc, hi, hs⟩ := exists_combined_eq hb hc hrelative
  have hnormal : ∀ rooted, Normalized rooted (along rooted (resolve rooted b) c) :=
    fun rooted => normalized_along (normalized_resolve rooted b) c
  cases hb' : isAbsolute b with
  | true =>
    -- Both groupings begin anew at the root, at `b`.
    have hbc' : isAbsolute (combined b c) = true := by
      rw [combined_of_relative hb hc hrelative, hb']
      rfl
    rw [combined_of_absolute hb.toDriveless hb', combined_of_relative hb.normalForm hc hrelative,
      normalForm_of_ordinary hb, hb', isAbsolute_shown (normalized_resolve true b),
      resolve_shown (normalized_resolve true b), combined_of_absolute hdriveless hbc', hbc,
      normalForm_of_no_colon hcs.colon, normalForm_of_ordinary hcs, hi, hb', hs]
  | false =>
    have hbc' : combined b c = join (along false (resolve false b) c) := by
      rw [combined_of_relative hb hc hrelative, hb']
      rfl
    have hr : isAbsolute (combined b c) = false := by
      rw [hbc']
      exact isAbsolute_shown (hnormal false)
    have hmiddle := normalized_along (normalized_resolve (isAbsolute a) a) b
    rw [combined_of_relative hab hc hrelative, combined_of_relative ha hb.toDriveless hb',
      isAbsolute_shown hmiddle, resolve_shown hmiddle, combined_of_relative ha hdriveless hr, hbc',
      along_join_along]

/-- A chain of names, each seen from what is before it, and how its steps are grouped. -/
inductive Grouping where
  | name (spelling : String)
  | within (outer inner : Grouping)

namespace Grouping

/-- The names of a chain in their order. -/
def names : Grouping → List String
  | name spelling => [spelling]
  | within outer inner => outer.names ++ inner.names

/-- The name that a chain leads to when its steps are taken as they are grouped. -/
def target : Grouping → String
  | name spelling => spelling
  | within outer inner => combine outer.target inner.target

end Grouping

/-- Names of which each can be seen from the one before it: none has a drive, and none but the last
begins with a server. -/
structure Chained (names : List String) : Prop where
  driveless : ∀ name ∈ names, Driveless name.toList
  serverless : ∀ name ∈ names.dropLast, ¬ ['/', '/'] <+: name.toList

variable {first name : String} {names more : List String}

theorem Chained.ordinary (h : Chained names) (hm : name ∈ names.dropLast) : Ordinary name.toList :=
  ⟨h.driveless name (List.dropLast_subset _ hm), h.serverless name hm⟩

theorem Chained.of_append (h : Chained (names ++ more)) : Chained more where
  driveless name hm := h.driveless name (List.mem_append_right _ hm)
  serverless name hm := by
    have hn : more ≠ [] := by
      rintro rfl
      simp at hm
    refine h.serverless name ?_
    rw [List.dropLast_append_of_ne_nil hn]
    exact List.mem_append_right _ hm

theorem Chained.ordinary_of_append (h : Chained (names ++ more)) (hn : more ≠ []) :
    ∀ name ∈ names, Ordinary name.toList := by
  intro name hm
  refine h.ordinary ?_
  rw [List.dropLast_append_of_ne_nil hn]
  exact List.mem_append_left _ hm

theorem Chained.combine {second : String} (h : Chained (first :: second :: names)) :
    Chained (combine first second :: names) := by
  have hf : Ordinary first.toList := h.ordinary (by simp)
  constructor
  · intro name hm
    rcases List.mem_cons.1 hm with rfl | hm
    · rw [FileName.combine, String.toList_ofList]
      exact Driveless.combined hf (h.driveless second (by simp))
    · exact h.driveless name (by simp [hm])
  · intro name hm
    cases names with
    | nil => simp at hm
    | cons third names =>
      rcases List.mem_cons.1 hm with rfl | hm
      · rw [FileName.combine, String.toList_ofList]
        exact (hf.combined (h.ordinary (by simp))).serverless
      · exact h.serverless name (by simp [hm])

theorem combine_combine {a b c : String} (h : Chained [a, b, c]) :
    combine (combine a b) c = combine a (combine b c) := by
  have ha : Ordinary a.toList := h.ordinary (by simp)
  have hb : Ordinary b.toList := h.ordinary (by simp)
  have hc : Driveless c.toList := h.driveless c (by simp)
  simp only [combine, String.toList_ofList, combined_combined ha hb hc]

/-- A directory in front of a chain can be taken with its first step. -/
theorem combine_foldl {directory : String} (hd : Ordinary directory.toList)
    (h : Chained (first :: names)) :
    combine directory (names.foldl combine first) = names.foldl combine (combine directory first) := by
  induction names generalizing first with
  | nil => rfl
  | cons second names ih =>
    have hthree : Chained [directory, first, second] := by
      have hf : Ordinary first.toList := h.ordinary (by simp)
      constructor
      · simp [hd.toDriveless, hf.toDriveless, h.driveless second]
      · simp [hd.serverless, hf.serverless]
    rw [List.foldl_cons, ih h.combine, List.foldl_cons, combine_combine hthree]

theorem ordinary_foldl (hf : Ordinary first.toList) (h : ∀ name ∈ names, Ordinary name.toList) :
    Ordinary (names.foldl combine first).toList := by
  induction names generalizing first with
  | nil => exact hf
  | cons second names ih =>
    obtain ⟨hs, hn⟩ := List.forall_mem_cons.1 h
    refine ih ?_ hn
    rw [combine, String.toList_ofList]
    exact hf.combined hs

theorem Grouping.exists_names_eq (chain : Grouping) : ∃ first more, chain.names = first :: more := by
  induction chain with
  | name spelling => exact ⟨spelling, [], rfl⟩
  | within outer inner ihouter ihinner =>
    obtain ⟨first, more, ho⟩ := ihouter
    exact ⟨first, more ++ inner.names, by rw [names, ho, List.cons_append]⟩

/-- A chain leads where its steps lead when they are taken one by one from the left. -/
theorem Grouping.target_eq_foldl {chain : Grouping} (hn : chain.names = first :: names)
    (h : Chained chain.names) : chain.target = names.foldl combine first := by
  induction chain generalizing first names with
  | name spelling =>
    obtain ⟨rfl, rfl⟩ := List.cons.inj hn
    rfl
  | within outer inner ihouter ihinner =>
    obtain ⟨first, more, ho⟩ := outer.exists_names_eq
    obtain ⟨second, rest, hi⟩ := inner.exists_names_eq
    have hall : (outer.within inner).names = first :: (more ++ second :: rest) := by
      rw [Grouping.names, ho, hi, List.cons_append]
    obtain ⟨rfl, rfl⟩ := List.cons.inj (hall.symm.trans hn)
    have hinner : Chained inner.names := h.of_append
    have hordinary : ∀ name ∈ outer.names, Ordinary name.toList :=
      h.ordinary_of_append (by simp [hi])
    have houter : Chained outer.names :=
      ⟨fun name hm => (hordinary name hm).toDriveless,
        fun name hm => (hordinary name (List.dropLast_subset _ hm)).serverless⟩
    rw [ho] at hordinary
    obtain ⟨hf, hm⟩ := List.forall_mem_cons.1 hordinary
    rw [target, ihouter ho houter, ihinner hi hinner,
      combine_foldl (ordinary_foldl hf hm) (hi ▸ hinner), List.foldl_append, List.foldl_cons]

/-- Names without backslashes and drives, of which only the last may begin with a server, lead to
the same name however the steps from one to the next are grouped. For three names this says that
`combine` is associative, whether they are empty, climb above their beginning or above the root, or
begin anew at it. -/
theorem combine_associative :
    (∀ a b c : String,
      (∀ name ∈ [a, b, c], '\\' ∉ name.toList ∧ ':' ∉ name.toList) →
      (∀ name ∈ [a, b], ¬ ['/', '/'] <+: name.toList) →
        combine (combine a b) c = combine a (combine b c)) ∧
    ∀ chain other : Grouping, chain.names = other.names →
      (∀ name ∈ chain.names, '\\' ∉ name.toList ∧ ':' ∉ name.toList) →
      (∀ name ∈ chain.names.dropLast, ¬ ['/', '/'] <+: name.toList) →
        chain.target = other.target := by
  constructor
  · intro a b c hp hs
    exact combine_combine ⟨fun name hm => ⟨(hp name hm).1, (hp name hm).2⟩, hs⟩
  · intro chain other hnames hp hs
    have h : Chained chain.names := ⟨fun name hm => ⟨(hp name hm).1, (hp name hm).2⟩, hs⟩
    obtain ⟨first, more, hc⟩ := chain.exists_names_eq
    rw [Grouping.target_eq_foldl hc h, Grouping.target_eq_foldl (hnames ▸ hc) (hnames ▸ h)]

theorem combine_associative_above_root :
    let left := Grouping.within (.within (.within (.name "") (.name "../a/")) (.name "..")) (.name "//s/x")
    let right := Grouping.within (.name "") (.within (.name "../a/") (.within (.name "..") (.name "//s/x")))
    combine (combine "/a" "../../b/..") "../c.ts" = combine "/a" (combine "../../b/.." "../c.ts") ∧
    left.target = right.target :=
  ⟨combine_associative.1 _ _ _ (by decide) (by decide),
    combine_associative.2 _ _ rfl (by decide) (by decide)⟩

end ScriptHost.FileName
