import Mathlib.Data.List.Forall2
import ScriptHost.Report

/-! What reports tell of the diagnostics that were forwarded, whatever a callback answers. -/

namespace ScriptHost

/-- A diagnostic with its line. -/
def Diagnostic.notice (diagnostic : Diagnostic) : Notice := ⟨diagnostic, diagnostic.render⟩

/-- Whether a log record shows a diagnostic, as loud as its category asks for. -/
structure LogRecord.Shows (record : LogRecord) (diagnostic : Diagnostic) : Prop where
  text : record.text = diagnostic.render
  level : record.level =
    match diagnostic.category with
    | .error => .error
    | .warning => .warn
    | .message => .info

namespace Reports

variable {callback : Option Callback} {reports : Reports} {stream : List Diagnostic}

/-- The diagnostics of a stream that go to the log: those that the callback, which was shown all
before them, leaves to it. Without a callback these are all. -/
def logged (callback : Option Callback) (stream : List Diagnostic) : List Diagnostic :=
  (stream.zipIdx.filter fun item => callback.all fun callback =>
    callback ((stream.take item.2).map Diagnostic.notice) item.1 item.1.render = .report).map
      Prod.fst

/-- Whether reports are those of a stream of diagnostics. -/
structure Tells (callback : Option Callback) (reports : Reports) (stream : List Diagnostic) :
    Prop where
  lines : reports.lines = stream.map Diagnostic.render
  seen : reports.seen = if callback.isSome then stream.map Diagnostic.notice else []
  log : List.Forall₂ LogRecord.Shows reports.log (logged callback stream)

theorem tells_nil (callback : Option Callback) : Tells callback {} [] :=
  ⟨rfl, by simp, .nil⟩

theorem logged_concat (callback : Option Callback) (stream : List Diagnostic)
    (diagnostic : Diagnostic) :
    logged callback (stream ++ [diagnostic]) =
      logged callback stream ++
        if callback.all fun callback =>
          callback (stream.map Diagnostic.notice) diagnostic diagnostic.render = .report
        then [diagnostic] else [] := by
  have hs : stream.zipIdx.filter (fun item => callback.all fun callback =>
        callback (((stream ++ [diagnostic]).take item.2).map Diagnostic.notice) item.1
          item.1.render = .report) =
      stream.zipIdx.filter fun item => callback.all fun callback =>
        callback ((stream.take item.2).map Diagnostic.notice) item.1 item.1.render = .report := by
    refine List.filter_congr fun item hi => ?_
    have hl := List.snd_lt_of_mem_zipIdx hi
    rw [List.take_append_of_le_length (by omega)]
  unfold logged
  rw [List.zipIdx_append, List.filter_append, List.map_append, hs]
  congr 1
  by_cases hc : callback.all fun callback =>
    callback (stream.map Diagnostic.notice) diagnostic diagnostic.render = .report <;> simp_all

theorem shows_logRecord (diagnostic : Diagnostic) :
    (logRecord diagnostic diagnostic.render).Shows diagnostic := by
  refine ⟨rfl, ?_⟩
  unfold logRecord
  cases diagnostic.category <;> rfl

/-- A record more for a diagnostic more that goes to the log. -/
theorem Tells.log_concat {diagnostic : Diagnostic} (h : Tells callback reports stream) :
    List.Forall₂ LogRecord.Shows (reports.log ++ [logRecord diagnostic diagnostic.render])
      (logged callback stream ++ [diagnostic]) :=
  List.rel_append h.log (.cons (shows_logRecord diagnostic) .nil)

theorem Tells.forwardOne (h : Tells callback reports stream) (diagnostic : Diagnostic) :
    Tells callback (reports.forwardOne callback diagnostic) (stream ++ [diagnostic]) := by
  cases callback with
  | none =>
    refine ⟨?_, ?_, ?_⟩
    · simp [Reports.forwardOne, h.lines]
    · simpa [Reports.forwardOne] using h.seen
    · simpa [Reports.forwardOne, logged_concat] using h.log_concat
  | some callback =>
    have hseen : reports.seen = stream.map Diagnostic.notice := by simpa using h.seen
    refine ⟨?_, ?_, ?_⟩
    · simp [Reports.forwardOne, h.lines]
    · simp [Reports.forwardOne, hseen, Diagnostic.notice]
    · rw [logged_concat]
      simp only [Reports.forwardOne, hseen]
      cases hc : callback (stream.map Diagnostic.notice) diagnostic diagnostic.render with
      | report => simpa [hc] using h.log_concat
      | suppress => simpa [hc] using h.log

/-- Forwarding more diagnostics makes the reports those of the longer stream. -/
theorem Tells.forward (h : Tells callback reports stream) (diagnostics : List Diagnostic) :
    Tells callback (reports.forward callback diagnostics) (stream ++ diagnostics) := by
  induction diagnostics generalizing reports stream with
  | nil => simpa [Reports.forward] using h
  | cons first rest ih => simpa [Reports.forward] using ih (h.forwardOne first)

end Reports

end ScriptHost
