import ScriptHost.Host.Service
import ScriptHost.Proofs.FixedHost

/-! Tasks that only look up texts: they leave a host and a disk as they are, so the host answers
them like one whose answers never change. -/

namespace ScriptHost

variable {α : Type} {task : Task α} {host : Host} {disk : Disk}

/-- What a read from disk is answered: the text of the file without one byte order mark, nothing if
there is no such file, and a failure otherwise. -/
structure Disk.Answers (disk : Disk) (name : String) (answer : ReadAnswer) : Prop where
  marked {text rest : String} (h : disk.readText (FileName.normalize name) = .ok text)
    (hm : text.toList = '\uFEFF' :: rest.toList) : answer = .ok (some rest)
  unmarked {text : String} (h : disk.readText (FileName.normalize name) = .ok text)
    (hm : text.toList.head? ≠ some '\uFEFF') : answer = .ok (some text)
  missing (h : disk.readText (FileName.normalize name) = .error .notFound) : answer = .ok none
  failed {failure : DiskFailure} (h : disk.readText (FileName.normalize name) = .error failure)
    (hf : failure ≠ .notFound) : answer = .error (.read name failure)

theorem answers_readDisk (disk : Disk) (name : String) :
    disk.Answers name (Host.readDisk disk name) where
  marked {text rest} h hm := by
    simp only [Host.readDisk, h, Text.dropByteOrderMark_of_marked hm]
  unmarked {text} h hm := by
    simp only [Host.readDisk, h, Text.dropByteOrderMark_of_unmarked hm]
  missing h := by simp only [Host.readDisk, h]
  failed {failure} h hf := by
    rw [Host.readDisk, h]
    cases failure <;> first | rfl | exact (hf rfl).elim

/-- The answers of a host and a disk as they are now. -/
def Host.answers (host : Host) (disk : Disk) : FixedHost where
  read := host.readSource disk
  write name data mark := (host.writeFile disk name data mark).answer
  directory := (host.currentDirectory disk).1
  library := host.defaultLibrary
  canonicalName := host.canonicalName
  caseSensitive := host.caseSensitive
  newLine := host.newLine

theorem Host.read_answers (host : Host) (disk : Disk) (name : String) :
    (host.answers disk).read name = host.readSource disk name := rfl

theorem Host.answer_answers (host : Host) (disk : Disk) (question : Query) :
    (host.answers disk).answer question = host.answer question := by
  cases question <;> rfl

/-- A task that only looks up texts has one value wherever it finds the same ones. -/
theorem Task.Only.value_congr (h : task.Only Ask.IsLookUp) {first second : FixedHost}
    (hc : first.canonicalName = second.canonicalName)
    (hr : ∀ name ∈ task.reads first, first.read name = second.read name) :
    task.value first = task.value second := by
  induction task with
  | done value => rfl
  | read name k ih =>
    rw [Task.value, Task.value, ← hr name List.mem_cons_self]
    exact ih _ (h.2 _) fun other ho => hr other (List.mem_cons_of_mem _ ho)
  | write name data mark k => exact h.1.elim
  | currentDirectory k => exact h.1.elim
  | query question k ih =>
    cases question with
    | canonicalName name =>
      have he : second.answer (.canonicalName name) = first.answer (.canonicalName name) :=
        (congrFun hc name).symm
      rw [Task.value, Task.value, he]
      exact ih _ (h.2 _) hr
    | defaultLibrary | caseSensitive | newLine => exact h.1.elim

/-- Serving a task that only looks up texts gives its value, and changes nothing. -/
theorem Host.serve_of_lookUps (h : task.Only Ask.IsLookUp) :
    host.serve task disk = ⟨task.value (host.answers disk), host, disk⟩ := by
  induction task with
  | done value => rfl
  | read name k ih => exact ih _ (h.2 _)
  | write name data mark k => exact h.1.elim
  | currentDirectory k => exact h.1.elim
  | query question k ih =>
    rw [Host.serve, Task.value, host.answer_answers]
    exact ih _ (h.2 _)

end ScriptHost
