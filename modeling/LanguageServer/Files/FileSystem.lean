import LanguageServer.Files.Path
import LanguageServer.Table
import LanguageServer.Text.Newline
import LanguageServer.Text.Quoted
import LanguageServer.Text.Utf8

/-!
# File systems

A file system holds regular files and symbolic links; the directories are those that
lie above them, the root and the working directory.  A path is resolved component by
component: a link is replaced by its target before the next component is read, so
that two dots behind a link lead to the parent of the link's target.  Resolving does
not ask for existence.

A link that leads back to itself cannot be followed; what follows it is then only
normalised.

## Main definitions

* `FileSystem` — files, links and the working directory.
* `FileSystem.resolve` — the link-free absolute form of a path.
* `FileSystem.resolve?` — the same, refusing paths that no file can have.
* `FileSystem.readText` — the text of a file, with the line ends normalised.
* `AccessError` — why a file cannot be read.
-/

namespace LanguageServer

open LanguageServer.Text

/-- Regular files and symbolic links, by the components of their absolute paths. -/
structure FileSystem where
  files : Table (List String) (List UInt8)
  links : Table (List String) Path
  workingDirectory : List String

/-- Why a file cannot be read. -/
inductive AccessError where
  | missing (path : Path)
  | notDirectory (path : Path)
  | isDirectory (path : Path)
  | tooManyLinks (path : Path)
  | notText (path : Path)
  deriving DecidableEq, Repr

/-- The path of an access error inside its wording. -/
def AccessError.quotedPath (path : Path) : String := ": " ++ quotedString path.toString

/-- The wording of an access error; bytes that are no text have none of their own. -/
def AccessError.message : AccessError → String
  | .missing path => "[Errno 2] No such file or directory" ++ quotedPath path
  | .notDirectory path => "[Errno 20] Not a directory" ++ quotedPath path
  | .isDirectory path => "[Errno 21] Is a directory" ++ quotedPath path
  | .tooManyLinks path => "[Errno 40] Too many levels of symbolic links" ++ quotedPath path
  | .notText _ => ""

/-- A path that no file can have. -/
inductive PathError where
  | nul (path : Path)
  deriving DecidableEq, Repr

namespace FileSystem

/-- The file system without files. -/
def empty (workingDirectory : List String) : FileSystem := ⟨.empty, .empty, workingDirectory⟩

/-! ## Following links -/

/-- How far a path has been resolved: the components so far, last first, and whether no link led
back to itself. -/
structure Resolution where
  done : List String
  complete : Bool
  deriving DecidableEq, Repr

/-- Adds a component without looking at links. -/
def Resolution.push (r : Resolution) (part : String) : Resolution :=
  { r with done := Path.pushPart true r.done part }

/-- Reads the components `parts` behind what is resolved already.  `active` holds the links that
are being followed, and `depth` bounds how many of them can be nested. -/
def resolveParts (fs : FileSystem) :
    Nat → List (List String) → Resolution → List String → Resolution
  | 0, _, start, parts => parts.foldl Resolution.push start
  | depth + 1, active, start, parts =>
    parts.foldl (fun r part =>
      if !r.complete || part == ".." then r.push part
      else
        let here := (part :: r.done).reverse
        match fs.links.find? here with
        | none => r.push part
        | some target =>
          if active.contains here then { r.push part with complete := false }
          else
            let origin := if target.isAbsolute then [] else r.done
            fs.resolveParts depth (here :: active) { r with done := origin } target.parts) start

/-- The components of a path from the root, before links are followed. -/
def absoluteParts (fs : FileSystem) (p : Path) : List String :=
  if p.isAbsolute then p.parts else fs.workingDirectory ++ p.parts

/-- The components of the link-free absolute form of a path. -/
def resolution (fs : FileSystem) (parts : List String) : Resolution :=
  fs.resolveParts (fs.links.size + 1) [] ⟨[], true⟩ parts

/-- The link-free absolute form of a path. -/
def resolve (fs : FileSystem) (p : Path) : Path :=
  ⟨.root, (fs.resolution (fs.absoluteParts p)).done.reverse⟩

/-- The link-free absolute form of a path, unless no file can have it. -/
def resolve? (fs : FileSystem) (p : Path) : Except PathError Path :=
  if p.hasNul then .error (.nul p) else .ok (fs.resolve p)

/-! ## Reading -/

/-- What stands at a link-free path. -/
inductive Entry where
  | file (bytes : List UInt8)
  | directory
  | unfollowed
  | nothing

/-- Whether `parts` is a directory: the root, the working directory, or above some entry. -/
def isDirectory (fs : FileSystem) (parts : List String) : Bool :=
  (fs.workingDirectory :: fs.files.keys ++ fs.links.keys).any fun known =>
    parts.isPrefixOf known && (parts != known || known == fs.workingDirectory)

/-- What stands at a link-free path. -/
def entryAt (fs : FileSystem) (r : Resolution) : Entry :=
  let parts := r.done.reverse
  if !r.complete then .unfollowed
  else
    match fs.files.find? parts with
    | some bytes => .file bytes
    | none => if fs.isDirectory parts then .directory else .nothing

/-- The first of the directories on the way that is none, if there is one: each path in `ways` must
lead to a directory. -/
def obstacle? (fs : FileSystem) (p : Path) : List (List String) → Option AccessError
  | [] => none
  | way :: rest =>
    match fs.entryAt (fs.resolution way) with
    | .directory => fs.obstacle? p rest
    | .file _ => some (.notDirectory p)
    | .nothing => some (.missing p)
    | .unfollowed => some (.tooManyLinks p)

/-- The bytes of the file at a path.  Every component but the last must be a directory. -/
def readBytes (fs : FileSystem) (p : Path) : Except AccessError (List UInt8) :=
  let parts := fs.absoluteParts p
  match fs.obstacle? p ((List.range parts.length).map parts.take) with
  | some e => .error e
  | none =>
    match fs.entryAt (fs.resolution parts) with
    | .file bytes => .ok bytes
    | .directory => .error (.isDirectory p)
    | .nothing => .error (.missing p)
    | .unfollowed => .error (.tooManyLinks p)

/-- Whether a regular file stands at a path, links followed. -/
def isFile (fs : FileSystem) (p : Path) : Bool := (fs.readBytes p).isOk

/-- The text of the file at a path. -/
def readText (fs : FileSystem) (p : Path) : Except AccessError String := do
  let bytes ← fs.readBytes p
  match decodeUtf8? bytes with
  | some s => .ok (String.ofList (normaliseNewlines s))
  | none => .error (.notText p)

end FileSystem

end LanguageServer
