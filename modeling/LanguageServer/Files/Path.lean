import LanguageServer.Text.Cut

/-!
# Paths

A path is anchored at the working directory or at the root, and then names one
component after the other.  Exactly two leading slashes are an anchor of their own,
three or more are the root.  Empty components and single dots say nothing and are
dropped when a path is read; two dots are kept, because what they mean depends on
links.

## Main definitions

* `Path` — an anchor and components.
* `Path.ofString`, `Path.toString` — reading and writing.
* `Path.join` — a path seen from a directory.
* `Path.isWithin` — at or below a directory, by whole components.
* `Path.normalise` — two dots resolved without looking at links.
* `normalisePath`, `directoryOf`, `joinPaths` — the same on strings.
-/

namespace LanguageServer

open LanguageServer.Text

/-- Where a path starts. -/
inductive Anchor where
  | relative
  | root
  | doubleRoot
  deriving DecidableEq, Repr

/-- An anchor and the components below it. -/
structure Path where
  anchor : Anchor
  parts : List String
  deriving DecidableEq, Repr

namespace Path

/-- The anchor that a text begins with. -/
def anchorOf : List Char → Anchor
  | '/' :: '/' :: '/' :: _ => .root
  | '/' :: '/' :: _ => .doubleRoot
  | '/' :: _ => .root
  | _ => .relative

/-- Whether a component says something. -/
def isNamed (part : List Char) : Bool := part != [] && part != ['.']

/-- Reads a path. -/
def ofString (s : String) : Path :=
  ⟨anchorOf s.toList, ((pieces '/' s.toList).filter isNamed).map String.ofList⟩

/-- The text of an anchor. -/
def anchorText : Anchor → String
  | .relative => ""
  | .root => "/"
  | .doubleRoot => "//"

/-- Writes a path; the empty relative path is a dot. -/
def toString (p : Path) : String :=
  let text := anchorText p.anchor ++ String.intercalate "/" p.parts
  if text.isEmpty then "." else text

/-- Whether the path starts at the root. -/
def isAbsolute (p : Path) : Bool := p.anchor != .relative

/-- The path `p` seen from the directory `base`; an absolute path stands for itself. -/
def join (base p : Path) : Path :=
  if p.isAbsolute then p else ⟨base.anchor, base.parts ++ p.parts⟩

/-- The path of an entry of a directory. -/
def child (base : Path) (name : String) : Path := ⟨base.anchor, base.parts ++ [name]⟩

/-- Whether `p` is the directory `dir` or lies below it, compared by whole components. -/
def isWithin (p dir : Path) : Bool := p.anchor == dir.anchor && dir.parts.isPrefixOf p.parts

theorem isWithin_iff {p dir : Path} :
    p.isWithin dir = true ↔ p.anchor = dir.anchor ∧ dir.parts <+: p.parts := by
  simp [isWithin]

/-- A path lies within itself. -/
theorem isWithin_self (p : Path) : p.isWithin p = true := by
  simp [isWithin]

/-- Adds a component to components that stand last first: two dots take back the component before
them, and at the root they say nothing. -/
def pushPart (absolute : Bool) (done : List String) (part : String) : List String :=
  if part = ".." then
    match done with
    | [] => if absolute then [] else [".."]
    | last :: before => if last = ".." then ".." :: done else before
  else part :: done

/-- Resolves two dots without looking at links. -/
def normalise (p : Path) : Path :=
  { p with parts := (p.parts.foldl (pushPart p.isAbsolute) []).reverse }

/-- Whether a component holds the character NUL, which no name of a file can. -/
def hasNul (p : Path) : Bool := p.parts.any (·.toList.contains '\x00')

end Path

/-- The normal form of a path text. -/
def normalisePath (s : String) : String := (Path.ofString s).normalise.toString

/-- Drops slashes at the end. -/
def dropTrailingSlashes (s : List Char) : List Char := (s.reverse.dropWhile (· == '/')).reverse

/-- The directory of a path text: what stands before the last slash, without slashes at its end
unless there is nothing else. -/
def directoryOf (s : String) : String :=
  match cutLast? '/' s.toList with
  | none => ""
  | some (before, _) =>
    let head := before ++ ['/']
    String.ofList (if head.all (· == '/') then head else dropTrailingSlashes head)

/-- A path text seen from a directory text. -/
def joinPaths (base s : String) : String :=
  if beginsWith "/" s then s
  else if base.isEmpty || base.toList.getLast? == some '/' then base ++ s
  else base ++ "/" ++ s

end LanguageServer
