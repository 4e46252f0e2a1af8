import ScriptHost.Host
import ScriptHost.Text.Escaped

/-! A host in one line, for those who look for faults. -/

namespace ScriptHost

def ReadStrategy.describe : ReadStrategy → String
  | .files => "Files"
  | .strings fallback => "Strings \x7b fallback_to_files: " ++ toString fallback ++ " \x7d"

def Medium.describe : Medium → String
  | .file => "File"
  | .string => "String"

/-- Names as a list of literals. -/
def describeNames (names : List String) : String :=
  "[" ++ ", ".intercalate (names.map Text.literal) ++ "]"

/-- A host in one line: its strategies, the names that it knows, and whether it is redirected. -/
def Host.describe (host : Host) : String :=
  "VirtualHost \x7b read: " ++ host.read.describe ++ ", write: " ++ host.write.describe ++
    ", sources: " ++ describeNames host.sourceNames ++
    ", outputs: " ++ describeNames host.outputs.names ++
    ", redirected: " ++ toString host.redirect.isSome ++ ", .. \x7d"

end ScriptHost
