import LanguageServer.CommandLine

/-!
# The program

Reads the command line and talks to the client over the standard streams.

The library works on file systems that are values.  So a message is first handled on an
empty file system; the files that were looked for and are on disk are then added, and
the message is handled anew, until nothing more is found.

## Main definitions

* `main` — the program.
-/

namespace LanguageServer

/-- The paths that were looked for while a message was handled. -/
def soughtPaths (s : Session Workspace) : List Path :=
  s.calls.filterMap (fun call => match call with
    | .read (.error (.inaccessible _ (.missing p))) => some p
    | _ => none)
    ++ (s.host.base.map (·.child Configuration.fileName)).toList

/-- Adds the files at some paths to a file system.  A path that leads elsewhere becomes a link. -/
def loadFiles (files : FileSystem) : List Path → IO FileSystem
  | [] => return files
  | p :: rest => do
    let files ← try
        let bytes ← IO.FS.readBinFile p.toString
        let target := Path.ofString (← IO.FS.realPath p.toString).toString
        let files := { files with files := files.files.insert target.parts bytes.toList }
        pure (if target = p then files
          else { files with links := files.links.insert p.parts target })
      catch _ => pure files
    loadFiles files rest

/-- The session after one arrival, with the files that it needs. -/
partial def handleArrival (files : FileSystem) (tried : List Path) (s : Session Workspace)
    (r : Received) : IO (Course Workspace) := do
  let c := Session.runAll (Command.capabilities files) s [.arrival r]
  match (soughtPaths c.last).filter (!tried.contains ·) with
  | [] => return c
  | sought => handleArrival (← loadFiles files sought) (tried ++ sought) s r

/-- Talks to the client until the session ends. -/
partial def converse (input output : IO.FS.Stream) (workingDirectory : List String)
    (buffered : List UInt8) (s : Session Workspace) : IO (Session Workspace) := do
  let stream : ByteStream := { rest := buffered }
  let wanted := min stream.wanted 4096
  let more ← if wanted = 0 then pure ⟨#[]⟩ else input.read (USize.ofNat wanted)
  if !more.isEmpty then
    converse input output workingDirectory (buffered ++ more.toList) s
  else
    let (r, stream) := stream.receive
    let c ← handleArrival (.empty workingDirectory) [] s r
    for m in c.sent do
      output.putStr (String.ofList (frame m.toJson))
    output.flush
    if r.continues && c.fault.isNone && c.last.lifecycle != .exited then
      converse input output workingDirectory stream.rest c.last
    else return c.last

end LanguageServer

open LanguageServer in
/-- The program. -/
def main (arguments : List String) : IO UInt32 := do
  let command := Command.ofArguments arguments (← IO.getEnv "COMPILERLS_ENGINE")
  match command with
  | .serve =>
    let directory := (Path.ofString (← IO.currentDir).toString).parts
    let last ← converse (← IO.getStdin) (← IO.getStdout) directory [] Command.newSession
    return if last.lifecycle == .exited && last.shutdownRequested then 0 else 1
  | .refuse reason =>
    (← IO.getStderr).putStrLn reason
    return 2
  | other =>
    (← IO.getStdout).putStr (other.run (.empty []) { rest := [] }).printed
    return 0
