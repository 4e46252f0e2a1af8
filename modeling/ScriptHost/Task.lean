import ScriptHost.Failure

/-! Tasks: what an engine does with the host that serves it. An engine reaches sources and outputs
only by its requests, so whatever it computes, a task is a finite tree of requests and answers. -/

namespace ScriptHost

/-- The answer to a read: text, nothing under that name, or a failure. -/
abbrev ReadAnswer := Except HostError (Option String)

/-- The answer to a write. -/
abbrev WriteAnswer := Except HostError Unit

/-- A question that a host answers from what it is, and not from what it serves. -/
inductive Query where
  | defaultLibrary
  /-- What stands for a name and for all that are the same to the host. -/
  | canonicalName (name : String)
  /-- Whether names that differ in case are different. -/
  | caseSensitive
  /-- The end of a line in outputs. -/
  | newLine
  deriving DecidableEq, Repr

abbrev Query.Answer : Query → Type
  | .caseSensitive => Bool
  | .defaultLibrary | .canonicalName _ | .newLine => String

/-- A computation that asks a host and ends with a value. -/
inductive Task (α : Type) where
  | done (value : α)
  | read (name : String) (next : ReadAnswer → Task α)
  | write (name data : String) (mark : Bool) (next : WriteAnswer → Task α)
  | currentDirectory (next : Except HostError String → Task α)
  | query (question : Query) (next : question.Answer → Task α)

namespace Task

variable {α β : Type}

def bind (next : α → Task β) : Task α → Task β
  | done value => next value
  | read name k => read name fun answer => (k answer).bind next
  | write name data mark k => write name data mark fun answer => (k answer).bind next
  | currentDirectory k => currentDirectory fun answer => (k answer).bind next
  | query question k => query question fun answer => (k answer).bind next

instance : Monad Task where
  pure := done
  bind task next := task.bind next

@[simp] theorem pure_eq (value : α) : (pure value : Task α) = done value := rfl

@[simp] theorem bind_eq (task : Task α) (next : α → Task β) :
    (task >>= next) = task.bind next := rfl

@[simp] theorem bind_done (value : α) (next : α → Task β) :
    (done value).bind next = next value := rfl

theorem bind_pure (task : Task α) : task.bind done = task := by
  induction task with
  | done value => rfl
  | read name k ih => simp only [bind, ih]
  | write name data mark k ih => simp only [bind, ih]
  | currentDirectory k ih => simp only [bind, ih]
  | query question k ih => simp only [bind, ih]

theorem bind_assoc {γ : Type} (task : Task α) (f : α → Task β) (g : β → Task γ) :
    (task.bind f).bind g = task.bind fun value => (f value).bind g := by
  induction task with
  | done value => rfl
  | read name k ih => simp only [bind, ih]
  | write name data mark k ih => simp only [bind, ih]
  | currentDirectory k ih => simp only [bind, ih]
  | query question k ih => simp only [bind, ih]

instance : LawfulMonad Task :=
  LawfulMonad.mk' Task bind_pure (fun _ _ => rfl) bind_assoc

end Task

end ScriptHost
