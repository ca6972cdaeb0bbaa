/-
PackageRouting/Disk/Replace.lean

Writing a file so that nobody sees half of it.

The bytes go into a sibling file, which is then renamed over the path.  A
failure on the way leaves the path as it was.  Directories above the path are
made when they are missing.
-/
import PackageRouting.Disk.Script

namespace PackageRouting.Script

/-- The path, and the paths above it, nearest first, without the empty one.  Every turn goes up by
one component. -/
def lineage (turns : Nat) (p : Path) : List Path :=
  match turns with
  | 0 => []
  | turns + 1 =>
    if p.text.isEmpty then []
    else p :: match p.parent? with
      | some above => lineage turns above
      | none => []

/-- Makes the directories of a lineage, of which the first is the one that is wanted; those above
it are made only if it cannot be made without them. -/
def makeLineage : List Path → Script (Except DiskError Unit)
  | [] => return .ok ()
  | p :: above => do
    match ← makeDirectory p with
    | .ok () => return .ok ()
    | .error .notFound =>
      match ← makeLineage above with
      | .error e => return .error e
      | .ok () =>
        match ← makeDirectory p with
        | .ok () => return .ok ()
        | .error e => return if ← isDirectory p then .ok () else .error e
    | .error e => return if ← isDirectory p then .ok () else .error e

/-- Makes a directory and those above it. -/
def makeDirectories (p : Path) : Script (Except DiskError Unit) :=
  makeLineage (lineage (p.components.length + 1) p)

/-- The directory that a file is written into. -/
def parentDirectory (p : Path) : Path :=
  match p.parent? with
  | some above => if above.text.isEmpty then ⟨"."⟩ else above
  | none => ⟨"."⟩

/-- The sibling that holds the bytes for a while; `process` is the number of this run. -/
def siblingOf (process : Nat) (p : Path) : Path :=
  (parentDirectory p).join
    ⟨"." ++ p.fileName?.getD "out" ++ ".partial." ++ toString process⟩

/-- Fills a new file. -/
def fill (p : Path) (bytes : List UInt8) : ExceptT DiskError Script Unit := do
  ExceptT.mk (create p)
  ExceptT.mk (write p bytes)
  ExceptT.mk (sync p)

/-- Writes a file all at once, and the directories above it. -/
def replace (process : Nat) (p : Path) (bytes : List UInt8) : ExceptT DiskError Script Unit := do
  ExceptT.mk (makeDirectories (parentDirectory p))
  let sibling := siblingOf process p
  fill sibling bytes
  match ← ExceptT.lift (rename sibling p) with
  | .ok () => return ()
  | .error e =>
    let _ ← ExceptT.lift (remove sibling)
    throw e

end PackageRouting.Script
