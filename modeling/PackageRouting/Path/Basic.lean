/-
PackageRouting/Path/Basic.lean

Paths as the program holds them: the text as it was spelled, read as a list of
components whenever two paths are compared.  Repeated and trailing slashes and
inner `.` steps do not show in the components, so `a//b`, `a/./b` and `a/b/` are
one path in three spellings, while `./a` and `a` are different paths.

The order of paths is the order of their component lists; tables keyed by a path
therefore find it under any spelling.

A `Path` is a text, so it is Unicode throughout: the paths that the program is given
are, and so are those found on a disk whose names are UTF-8.  Names of other bytes
are outside of this type, and outside of every statement about it; `Path/Bytes` has
the paths they make, and what differs for them.

Nothing here looks at a disk: `parent`, `join` and `normalize` are about text.
-/
import PackageRouting.Path.Component
import PackageRouting.Text.Cut

namespace PackageRouting

open Std

/-- A path, as the Unicode text it was written as. -/
structure Path where
  text : String
  deriving DecidableEq, Repr, Inhabited

namespace Path

instance : Coe String Path := ⟨Path.mk⟩

/-- The pieces between slashes, empty ones included. -/
def segments (p : Path) : List String :=
  (p.text.toList.splitOn '/').map String.ofList

/-- The component that a piece stands for behind a slash. -/
def laterComponent? : String → Option Component
  | "" => none
  | "." => none
  | ".." => some .up
  | s => some (.name s)

/-- The component that the piece in front of the first slash stands for; `slash` says whether
there is a slash. -/
def firstComponent? (slash : Bool) : String → Option Component
  | "" => if slash then some .root else none
  | "." => some .here
  | ".." => some .up
  | s => some (.name s)

/-- The components of a path. -/
def components (p : Path) : List Component :=
  match p.segments with
  | [] => []
  | first :: rest =>
    (firstComponent? (!rest.isEmpty) first).toList ++ rest.filterMap laterComponent?

instance : Ord Path where
  compare := compareOn components

instance : TransOrd Path :=
  inferInstanceAs (TransCmp (compareOn components))

/-- Two paths are the same path when their components are the same, whatever the spelling. -/
instance : HasEquiv Path where
  Equiv p q := p.components = q.components

instance (p q : Path) : Decidable (p ≈ q) :=
  inferInstanceAs (Decidable (p.components = q.components))

theorem compare_eq_iff {p q : Path} : compare p q = .eq ↔ p ≈ q := by
  show compare p.components q.components = .eq ↔ p.components = q.components
  exact Std.compare_eq_iff_eq

/-- The path written with single slashes. -/
def toSlash (p : Path) : String := Component.render p.components

/-! ### Joining -/

/-- The path `rel` as seen from `base`.  An absolute path stays as it is; otherwise the texts
are put together with a slash between them, unless `base` is empty or ends with one. -/
def join (base rel : Path) : Path :=
  if rel.text.toList.head? = some '/' then rel
  else if base.text.isEmpty || base.text.toList.getLast? = some '/' then ⟨base.text ++ rel.text⟩
  else ⟨base.text ++ "/" ++ rel.text⟩

/-- The path with `.` steps dropped and `..` steps folded into the name before them. -/
def normalize (p : Path) : Path := ⟨Component.render (Component.normalForm p.components)⟩

/-- The normal form of `rel` as seen from `base`. -/
def joinNormalized (base rel : Path) : Path := (base.join rel).normalize

/-! ### Parts of a path -/

/-- Whether a piece behind a slash shows in no component. -/
def isBlank (segment : String) : Bool := segment = "" || segment = "."

/-- The pieces, last first, without the blank ones at the end; the piece in front of the first
slash always stays. -/
def dropBlank : List String → List String
  | [] => []
  | [first] => [first]
  | s :: rest => if isBlank s then dropBlank rest else s :: rest

/-- The text of pieces that are given last first.  A lone empty piece is what stands before the
root's slash. -/
def unsplit : List String → String
  | [""] => "/"
  | pieces => "/".intercalate pieces.reverse

/-- The path without its last component, spelled as it was up to there; none for the root and
for the empty path. -/
def parent? (p : Path) : Option Path :=
  match dropBlank p.segments.reverse with
  | [] => none
  | [""] => none
  | [_] => some ⟨""⟩
  | _ :: rest => some ⟨unsplit (dropBlank rest)⟩

/-- The last component, if it is a name. -/
def fileName? (p : Path) : Option String :=
  match p.components.getLast? with
  | some (.name t) => some t
  | _ => none

/-- The file name up to its last dot.  A dot in front does not count. -/
def fileStem? (p : Path) : Option String :=
  p.fileName?.map fun name =>
    match Text.cutAtLast '.' name.toList with
    | none => name
    | some ([], _) => name
    | some (stem, _) => String.ofList stem

end Path

end PackageRouting
