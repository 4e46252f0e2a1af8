/-! The default library that comes with the host. -/

namespace ScriptHost.Library

def bundledName : String := "/opt/script-host/lib/lib.d.ts"

def bundledText : String :=
  "/// Ambient declarations consulted as the default library.\n" ++
  "\n" ++
  "declare var NaN: number;\n" ++
  "declare var Infinity: number;\n" ++
  "\n" ++
  "declare function parseInt(s: string, radix?: number): number;\n" ++
  "declare function parseFloat(string: string): number;\n" ++
  "declare function isNaN(number: number): boolean;\n" ++
  "declare function isFinite(number: number): boolean;\n" ++
  "\n" ++
  "interface Object \x7b\x7d\n" ++
  "interface Function \x7b\x7d\n" ++
  "interface String \x7b length: number; \x7d\n" ++
  "interface Number \x7b\x7d\n" ++
  "interface Boolean \x7b\x7d\n" ++
  "interface RegExp \x7b\x7d\n" ++
  "interface IArguments \x7b\x7d\n" ++
  "interface Array<T> \x7b length: number; [n: number]: T; \x7d\n"

end ScriptHost.Library
