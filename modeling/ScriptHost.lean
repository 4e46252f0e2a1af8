import ScriptHost.Closure
import ScriptHost.Compilation.Entry
import ScriptHost.Discovery
import ScriptHost.Engine.DenyList
import ScriptHost.Engine.Scripted
import ScriptHost.Host.Description
import ScriptHost.Main
import ScriptHost.Proofs.Closure.Agree
import ScriptHost.Proofs.Closure.Blame
import ScriptHost.Proofs.Closure.Calls
import ScriptHost.Proofs.Closure.Complete
import ScriptHost.Proofs.Closure.Order
import ScriptHost.Proofs.Closure.Reached
import ScriptHost.Proofs.Closure.Rearranged
import ScriptHost.Proofs.Closure.Serve
import ScriptHost.Proofs.Closure.Walk
import ScriptHost.Proofs.CommandLine.Layout
import ScriptHost.Proofs.CommandLine.Response
import ScriptHost.Proofs.CommandLine.Spelling
import ScriptHost.Proofs.Compilation.Alike
import ScriptHost.Proofs.Compilation.Given
import ScriptHost.Proofs.Compilation.Media
import ScriptHost.Proofs.Compilation.Memory
import ScriptHost.Proofs.Compilation.Outputs
import ScriptHost.Proofs.Compilation.Phases
import ScriptHost.Proofs.Compilation.Rearranged
import ScriptHost.Proofs.Compilation.Refused
import ScriptHost.Proofs.Compilation.Session
import ScriptHost.Proofs.Compilation.Single
import ScriptHost.Proofs.Compilation.Unknowing
import ScriptHost.Proofs.DenyList
import ScriptHost.Proofs.Discovery
import ScriptHost.Proofs.Disk.Following
import ScriptHost.Proofs.Emission
import ScriptHost.Proofs.FileName.Backslashes
import ScriptHost.Proofs.FileName.Below
import ScriptHost.Proofs.FileName.Climbing
import ScriptHost.Proofs.FileName.Endings
import ScriptHost.Proofs.FileName.Grouping
import ScriptHost.Proofs.FileName.Normal
import ScriptHost.Proofs.FileName.Placing
import ScriptHost.Proofs.Host.Creating
import ScriptHost.Proofs.Host.Duality
import ScriptHost.Proofs.Host.Operation
import ScriptHost.Proofs.Host.Recording
import ScriptHost.Proofs.Host.Registration
import ScriptHost.Proofs.Host.Served
import ScriptHost.Proofs.Host.Server
import ScriptHost.Proofs.Host.Sources
import ScriptHost.Proofs.Host.Writing
import ScriptHost.Proofs.NameMap
import ScriptHost.Proofs.OutputDirectory
import ScriptHost.Proofs.Reference
import ScriptHost.Proofs.Reference.Standing
import ScriptHost.Proofs.Reference.Written
import ScriptHost.Proofs.SourceMap.Decode
import ScriptHost.Proofs.SourceMap.Exact
import ScriptHost.Proofs.SourceMap.Numbering
import ScriptHost.Proofs.SourceMap.Words
import ScriptHost.Proofs.SourceText.Position
import ScriptHost.Proofs.Text.Order
import ScriptHost.Proofs.Tool.Printing
import ScriptHost.Proofs.Tool.Reporting
