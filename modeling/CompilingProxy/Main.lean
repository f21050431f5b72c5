import CompilingProxy.Gateway.CommandLine
import CompilingProxy.Gateway.Front

/-!
# The program

The origin server answers with the files of a directory. Which of them a task needs shows only while
it is done, so that it is done again with what was asked for, until nothing new is asked for.
-/

namespace CompilingProxy.CommandLine

/-- The files that have been looked for, by path; nothing where there is none. -/
abbrev KnownFiles := List (String × Option (List UInt8))

/-- The path that a request asks for. -/
def pathOf (r : Request) : String := String.ofList r.url.pathText

/-- Answers with the files that are known. -/
def networkOf (files : KnownFiles) : Network := fun r =>
  match files.lookup (pathOf r) with
  | some (some body) => .ok (.ok r.url body)
  | _ => .ok (.withStatus r.url 404 "Not Found")

def readBytes? (path : String) : IO (Option (List UInt8)) := do
  try
    let bytes ← IO.FS.readBinFile path
    return some bytes.toList
  catch _ => return none

/-- The paths that were asked for and have not been looked for. -/
def unknownPaths (files : KnownFiles) (requests : List Request) : List String :=
  (requests.map pathOf).eraseDups.filter fun path => (files.lookup path).isNone

/-- Does something again and again, each time with more files. -/
partial def withFiles (directory : String) (act : Network → α × GatewayState) (files : KnownFiles) :
    IO (α × GatewayState) := do
  let (result, state) := act (networkOf files)
  match unknownPaths files state.requests with
  | [] => return (result, state)
  | paths =>
    let found ← paths.mapM fun path => do return (path, ← readBytes? (directory ++ path))
    withFiles directory act (found ++ files)

def checkModule (g : Gateway) (directory target : String) : IO UInt32 := do
  let url := if target.startsWith "http://" || target.startsWith "https://"
    then (Url.parse target).mapError fun e => s!"invalid url {target}: {e.message}"
    else (g.requestUrl target).mapError (·.message)
  match url with
  | .error e => IO.eprintln e; return 1
  | .ok url =>
    let (outcome, _) ← withFiles directory (fun net => g.check net ⟨.inMemory, []⟩ url) []
    match outcome with
    | .error e => IO.eprintln e.message; return 1
    | .ok pass =>
      if !pass.report.isEmpty then IO.println pass.report.render
      let errors := pass.report.errorCount
      IO.println s!"{pass.modules.length} modules, {pass.compiledCount} compiled, {errors} errors"
      return if errors == 0 then 0 else 1

/-- Answers the targets on standard input, one on each line. -/
partial def serveLines (g : Gateway) (directory : String) (store : Store) : IO Unit := do
  let line ← (← IO.getStdin).getLine
  if line.isEmpty then return
  let target := String.ofList (line.toList.takeWhile fun c => c != '\n' && c != '\r')
  let act (net : Network) : Reply × GatewayState :=
    g.serve net ⟨store, []⟩ ⟨"GET", target, [], []⟩
  let (reply, state) ← withFiles directory act []
  IO.println s!"{reply.status}"
  for (name, value) in reply.headers do
    IO.println s!"{name}: {value}"
  IO.println ""
  IO.println (Text.ofBytesLossy reply.body)
  serveLines g directory state.store

def run (c : CommandLine) (read : Settings) : IO UInt32 := do
  match c.task, (c.settings read).bind Gateway.ofSettings with
  | .error e, _ => IO.eprintln e.message; return 2
  | _, .error e => IO.eprintln e.message; return 1
  | .ok (.check target), .ok g => checkModule g c.files target
  | .ok .serve, .ok g => serveLines g c.files .inMemory; return 0

end CompilingProxy.CommandLine

open CompilingProxy in
/-- Does what the command line says. -/
def main (args : List String) : IO UInt32 := do
  match CommandLine.parse {} args with
  | .error e => IO.eprintln e.message; return 2
  | .ok c =>
    match c.config with
    | none => c.run {}
    | some path =>
      match ← CommandLine.readBytes? path with
      | none => IO.eprintln s!"cannot read {path}"; return 1
      | some bytes =>
        match Settings.parse (Text.ofBytesLossy bytes) with
        | .error e => IO.eprintln e.message; return 1
        | .ok read => c.run read
