import Mathlib.Data.Set.Card
import ScriptHost.FileName
import ScriptHost.Task

/-! Tasks on hosts whose answers depend on the request alone: what they ask for, and their value. -/

namespace ScriptHost

/-- A host that gives the same answer whenever it is asked for the same thing. -/
structure FixedHost where
  read : (name : String) → ReadAnswer
  write : (name data : String) → (mark : Bool) → WriteAnswer
  directory : Except HostError String
  library : String
  canonicalName : String → String := id
  caseSensitive : Bool := true
  newLine : String := "\n"

/-- The answer to a question. -/
def FixedHost.answer (host : FixedHost) : (question : Query) → question.Answer
  | .defaultLibrary => host.library
  | .canonicalName name => host.canonicalName name
  | .caseSensitive => host.caseSensitive
  | .newLine => host.newLine

/-- What a task asks its host for. -/
inductive Ask where
  | read (name : String)
  | write (name data : String) (mark : Bool)
  | currentDirectory
  | query (question : Query)
  deriving DecidableEq, Repr

/-- Whether a request is for a text, or for what a name is known by. -/
def Ask.IsLookUp : Ask → Prop
  | read _ => True
  | query (.canonicalName _) => True
  | _ => False

namespace Task

variable {α β : Type} (host : FixedHost)

/-- The value that a task ends with. -/
def value : Task α → α
  | done value => value
  | read name next => (next (host.read name)).value
  | write name data mark next => (next (host.write name data mark)).value
  | currentDirectory next => (next host.directory).value
  | query question next => (next (host.answer question)).value

/-- What a task asks for until it ends, in its order. -/
def asks : Task α → List Ask
  | done _ => []
  | read name next => .read name :: (next (host.read name)).asks
  | write name data mark next => .write name data mark :: (next (host.write name data mark)).asks
  | currentDirectory next => .currentDirectory :: (next host.directory).asks
  | query question next => .query question :: (next (host.answer question)).asks

/-- The names that a task reads, in its order. -/
def reads (task : Task α) : List String :=
  (task.asks host).filterMap fun
    | .read name => some name
    | _ => none

@[simp] theorem value_done (value : α) : (done value).value host = value := rfl

@[simp] theorem asks_done (value : α) : (done value).asks host = [] := rfl

@[simp] theorem value_bind (task : Task α) (next : α → Task β) :
    (task.bind next).value host = (next (task.value host)).value host := by
  induction task with
  | done value => rfl
  | read name k ih => exact ih _
  | write name data mark k ih => exact ih _
  | currentDirectory k ih => exact ih _
  | query question k ih => exact ih _

@[simp] theorem asks_bind (task : Task α) (next : α → Task β) :
    (task.bind next).asks host = task.asks host ++ (next (task.value host)).asks host := by
  induction task with
  | done value => rfl
  | read name k ih => simp only [bind, asks, value, ih, List.cons_append]
  | write name data mark k ih => simp only [bind, asks, value, ih, List.cons_append]
  | currentDirectory k ih => simp only [bind, asks, value, ih, List.cons_append]
  | query question k ih => simp only [bind, asks, value, ih, List.cons_append]

@[simp] theorem reads_done (value : α) : (done value).reads host = [] := rfl

@[simp] theorem reads_bind (task : Task α) (next : α → Task β) :
    (task.bind next).reads host = task.reads host ++ (next (task.value host)).reads host := by
  simp [reads]

@[simp] theorem reads_read (name : String) (next : ReadAnswer → Task α) :
    (read name next).reads host = name :: (next (host.read name)).reads host := rfl

@[simp] theorem reads_query (question : Query) (next : question.Answer → Task α) :
    (query question next).reads host = (next (host.answer question)).reads host := rfl

/-- Whether a task asks for nothing but what is allowed, whatever it is answered. -/
def Only (allowed : Ask → Prop) : Task α → Prop
  | done _ => True
  | read name next => allowed (.read name) ∧ ∀ answer, (next answer).Only allowed
  | write name data mark next =>
    allowed (.write name data mark) ∧ ∀ answer, (next answer).Only allowed
  | currentDirectory next => allowed .currentDirectory ∧ ∀ answer, (next answer).Only allowed
  | query question next => allowed (.query question) ∧ ∀ answer, (next answer).Only allowed

variable {allowed : Ask → Prop} {task : Task α} {host}

theorem Only.bind {next : α → Task β} (h : task.Only allowed)
    (hn : ∀ value, (next value).Only allowed) : (task.bind next).Only allowed := by
  induction task with
  | done value => exact hn value
  | read name k ih => exact ⟨h.1, fun answer => ih answer (h.2 answer)⟩
  | write name data mark k ih => exact ⟨h.1, fun answer => ih answer (h.2 answer)⟩
  | currentDirectory k ih => exact ⟨h.1, fun answer => ih answer (h.2 answer)⟩
  | query question k ih => exact ⟨h.1, fun answer => ih answer (h.2 answer)⟩

theorem Only.asks (h : task.Only allowed) : ∀ ask ∈ task.asks host, allowed ask := by
  induction task with
  | done value => simp
  | read name k ih => exact List.forall_mem_cons.2 ⟨h.1, ih _ (h.2 _)⟩
  | write name data mark k ih => exact List.forall_mem_cons.2 ⟨h.1, ih _ (h.2 _)⟩
  | currentDirectory k ih => exact List.forall_mem_cons.2 ⟨h.1, ih _ (h.2 _)⟩
  | query question k ih => exact List.forall_mem_cons.2 ⟨h.1, ih _ (h.2 _)⟩

end Task

namespace FixedHost

/-- The names in normal form under which a host has text. -/
def texts (host : FixedHost) : Set String :=
  {name | (∃ spelling, FileName.normalize spelling = name) ∧
    ∃ text, host.read name = .ok (some text)}

/-- A host that has the texts of a list, and takes every write. -/
def serving (sources : List (String × String)) : FixedHost where
  read name := .ok (sources.lookup name)
  write _ _ _ := .ok ()
  directory := .ok ""
  library := ""

theorem encard_lookup_le (sources : List (String × String)) :
    {name | ∃ text, sources.lookup name = some text}.encard ≤ sources.length := by
  have hs : {name | ∃ text, sources.lookup name = some text} ⊆
      ((sources.map Prod.fst).toFinset : Set String) := by
    rintro name ⟨text, h⟩
    obtain ⟨before, after, he, -⟩ := List.lookup_eq_some_iff.1 h
    simp [he]
  refine (Set.encard_le_encard hs).trans ?_
  rw [Set.encard_coe_eq_coe_finsetCard]
  exact_mod_cast (List.toFinset_card_le _).trans (by simp)

theorem encard_texts_serving (sources : List (String × String)) :
    (serving sources).texts.encard ≤ sources.length := by
  refine (Set.encard_le_encard ?_).trans (encard_lookup_le sources)
  rintro name ⟨-, text, h⟩
  exact ⟨text, by simpa [serving] using h⟩

theorem length_le_of_encard {set : Set String} {served : Nat} {names : List String}
    (h : set.encard ≤ served) (hn : names.Nodup) (hs : ∀ name ∈ names, name ∈ set) :
    names.length ≤ served := by
  have hsub : (names.toFinset : Set String) ⊆ set := by
    intro name hname
    exact hs name (by simpa using hname)
  have hle := (Set.encard_le_encard hsub).trans h
  rw [Set.encard_coe_eq_coe_finsetCard, List.toFinset_card_of_nodup hn] at hle
  exact_mod_cast hle

end FixedHost

end ScriptHost
