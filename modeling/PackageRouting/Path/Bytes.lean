/-
PackageRouting/Path/Bytes.lean

Paths as the system spells them, which are bytes and need not be UTF-8.

Every path that the program is given in a text is a `Path`, and so is one that is
found on a disk whose names are UTF-8.  The names of other disks are bytes all
the same: such a path is read into components and compared as any other, but
whatever is shown of it is a text, and there U+FFFD stands for the bytes that are
broken.  Two different names may thus be shown alike.

`ofPath` is the path as the system spells it.
-/
import PackageRouting.Path.Module
import PackageRouting.Text.Utf8

namespace PackageRouting

/-- A path, as the bytes it was spelled with. -/
structure BytePath where
  bytes : List UInt8
  deriving DecidableEq, Repr, Inhabited

/-- One step of a path that is spelled with bytes. -/
inductive ByteComponent where
  | root
  | here
  | up
  | name (bytes : List UInt8)
  deriving DecidableEq, Repr, Inhabited

namespace ByteComponent

/-- The component as it is shown. -/
def shown : ByteComponent → Component
  | root => .root
  | here => .here
  | up => .up
  | name bytes => .name (Text.decodeLossy bytes)

/-- The bytes of a component. -/
def ofComponent : Component → ByteComponent
  | .root => root
  | .here => here
  | .up => up
  | .name text => name text.toUTF8.toList

end ByteComponent

namespace BytePath

/-- The path of a text, which the system spells in UTF-8. -/
def ofPath (p : Path) : BytePath := ⟨p.text.toUTF8.toList⟩

/-- The pieces between slashes, empty ones included. -/
def segments (p : BytePath) : List (List UInt8) := p.bytes.splitOn 0x2F

/-- The component that a piece stands for behind a slash. -/
def laterComponent? : List UInt8 → Option ByteComponent
  | [] => none
  | [0x2E] => none
  | [0x2E, 0x2E] => some .up
  | bytes => some (.name bytes)

/-- The component that the piece in front of the first slash stands for; `slash` says whether
there is a slash. -/
def firstComponent? (slash : Bool) : List UInt8 → Option ByteComponent
  | [] => if slash then some .root else none
  | [0x2E] => some .here
  | [0x2E, 0x2E] => some .up
  | bytes => some (.name bytes)

/-- The components of a path. -/
def components (p : BytePath) : List ByteComponent :=
  match p.segments with
  | [] => []
  | first :: rest =>
    (firstComponent? (!rest.isEmpty) first).toList ++ rest.filterMap laterComponent?

/-- Two paths are the same path when their components are the same, whatever the spelling. -/
instance : HasEquiv BytePath where
  Equiv p q := p.components = q.components

instance (p q : BytePath) : Decidable (p ≈ q) :=
  inferInstanceAs (Decidable (p.components = q.components))

/-- The path as it is shown: written with single slashes, and each name as far as it is UTF-8. -/
def toSlash (p : BytePath) : String :=
  Component.render (p.components.map ByteComponent.shown)

/-- Whether a candidate source is the module that a target names. -/
def sameModule (candidate target : BytePath) : Bool :=
  if candidate ≈ target then true else agreeOnStem candidate.toSlash target.toSlash

end BytePath

end PackageRouting
