import ScriptHost.Diagnostic

/-! Reports: every diagnostic is rendered, shown to a callback with its line if there is one, and
logged unless the callback has dealt with it. -/

namespace ScriptHost

/-- What a callback wants done with the log record of a diagnostic. -/
inductive Disposition where
  | report
  | suppress
  deriving DecidableEq, Repr

/-- A diagnostic and the line that shows it. -/
structure Notice where
  diagnostic : Diagnostic
  line : String
  deriving DecidableEq, Repr

/-- A callback. It may go by what it was shown earlier. -/
abbrev Callback := (earlier : List Notice) → Diagnostic → (line : String) → Disposition

/-- How loud a log record is. -/
inductive Level where
  | error
  | warn
  | info
  deriving DecidableEq, Repr

def Level.word : Level → String
  | error => "ERROR"
  | warn => "WARN"
  | info => "INFO"

/-- The level at which diagnostics of a category are logged. -/
def Category.level : Category → Level
  | error => .error
  | warning => .warn
  | message => .info

structure LogRecord where
  level : Level
  text : String
  deriving DecidableEq, Repr

/-- All reports of a run so far: the rendered lines, what the callback was shown, and the log. -/
structure Reports where
  lines : List String := []
  seen : List Notice := []
  log : List LogRecord := []
  deriving DecidableEq, Repr

namespace Reports

def logRecord (diagnostic : Diagnostic) (line : String) : LogRecord :=
  ⟨diagnostic.category.level, line⟩

/-- The reports once a diagnostic has been forwarded. -/
def forwardOne (callback : Option Callback) (reports : Reports) (diagnostic : Diagnostic) :
    Reports :=
  let line := diagnostic.render
  let lines := reports.lines ++ [line]
  match callback with
  | none => { reports with lines := lines, log := reports.log ++ [logRecord diagnostic line] }
  | some callback => {
      lines := lines
      seen := reports.seen ++ [⟨diagnostic, line⟩]
      log :=
        match callback reports.seen diagnostic line with
        | .report => reports.log ++ [logRecord diagnostic line]
        | .suppress => reports.log
    }

/-- The reports once diagnostics have been forwarded in their order. -/
def forward (callback : Option Callback) (reports : Reports) (diagnostics : List Diagnostic) :
    Reports :=
  diagnostics.foldl (forwardOne callback) reports

theorem forward_append (callback : Option Callback) (reports : Reports)
    (first second : List Diagnostic) :
    forward callback reports (first ++ second) =
      forward callback (forward callback reports first) second :=
  List.foldl_append

theorem lines_forward (callback : Option Callback) (reports : Reports)
    (diagnostics : List Diagnostic) :
    (forward callback reports diagnostics).lines =
      reports.lines ++ diagnostics.map Diagnostic.render := by
  induction diagnostics generalizing reports with
  | nil => simp [forward]
  | cons first rest ih =>
    have hfirst : (forwardOne callback reports first).lines = reports.lines ++ [first.render] := by
      cases callback <;> rfl
    have h := ih (forwardOne callback reports first)
    rw [hfirst] at h
    simpa [forward] using h

end Reports

end ScriptHost
