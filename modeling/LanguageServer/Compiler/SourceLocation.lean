/-!
# Locations in sources

A compiler speaks of sources by name and of places in them by character offsets.  The
offsets come from compilers unchecked, so both are integers of any sign and size.

## Main definitions

* `SourceLocation` — the characters from one offset up to another in a named source.
* `SourceLocation.contains` — whether an offset touches a location.
-/

namespace LanguageServer

/-- The characters from `start` up to `stop` in the source of the given name. -/
structure SourceLocation where
  source : String
  start : Int
  stop : Int
  deriving DecidableEq, Repr, Inhabited

namespace SourceLocation

/-- Whether an offset touches the location; both ends do, so that a cursor behind the last
character still points at it. -/
def contains (l : SourceLocation) (offset : Int) : Bool :=
  l.start ≤ offset && offset ≤ l.stop

/-- The number of characters. -/
def length (l : SourceLocation) : Int := l.stop - l.start

@[simp] theorem contains_iff {l : SourceLocation} {offset : Int} :
    l.contains offset = true ↔ l.start ≤ offset ∧ offset ≤ l.stop := by
  simp [contains]

end SourceLocation

end LanguageServer
