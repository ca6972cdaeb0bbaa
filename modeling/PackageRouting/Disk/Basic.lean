/-
PackageRouting/Disk/Basic.lean

A disk as a value, and the calls that read and change it.

A path is walked name by name.  Links on the way are followed, at most forty of
them; whether one at the very end is followed is up to the call.  A slash at
the end asks for a directory.  A call that fails changes nothing.
-/
import PackageRouting.Disk.Error
import PackageRouting.Disk.Node

namespace PackageRouting

/-- A disk, with the directory that relative paths start from. -/
structure Disk where
  top : Node
  /-- The place of the working directory. -/
  workingDirectory : List String := []
  /-- The time that a file gets when it is written. -/
  now : Int := 0
  deriving Inhabited, Repr

/-- What is known of a file without reading it. -/
structure Status where
  isFile : Bool
  isDirectory : Bool
  size : Nat
  modified : Int
  deriving DecidableEq, Repr

namespace Disk

/-! ### Walking a path -/

/-- Where a walk ends. -/
inductive Found where
  | node (place : List String) (node : Node)
  /-- There is the directory, but not the name in it. -/
  | missing (directory : List String) (name : String)

/-- The pieces of a path between slashes. -/
def pieces (text : String) : List String :=
  ((text.toList.splitOn '/').map String.ofList).filter (· ≠ "")

/-- The pieces to walk; a slash at the end asks for the directory itself. -/
def steps (text : String) : List String :=
  if text.toList.getLast? = some '/' then pieces text ++ ["."] else pieces text

def startsAtTop (text : String) : Bool := text.toList.head? = some '/'

/-- The greatest number of bytes in a name. -/
def nameLimit : Nat := 255

/-- The number of bytes that no path reaches. -/
def pathLimit : Nat := 4096

/-- Refuses texts that are no path at all. -/
def checkPath (text : String) : Except DiskError Unit :=
  if text.toList.contains '\x00' then .error .zeroInName
  else if text.isEmpty then .error .notFound
  else if pathLimit ≤ text.utf8ByteSize then .error .nameTooLong
  else .ok ()

/-- Walks from a directory; `links` more links may be followed. -/
def walk (top : Node) (follow : Bool) (links : Nat) (here : List String) :
    List String → Except DiskError Found
  | [] =>
    match top.at? here with
    | some node => .ok (.node here node)
    | none => .error .notFound
  | "." :: rest => walk top follow links here rest
  | ".." :: rest => walk top follow links here.dropLast rest
  | name :: rest =>
    if nameLimit < name.utf8ByteSize then .error .nameTooLong
    else
      match top.at? (here ++ [name]) with
      | none => if rest.isEmpty then .ok (.missing here name) else .error .notFound
      | some (.directory _) => walk top follow links (here ++ [name]) rest
      | some (.file bytes modified) =>
        if rest.isEmpty then .ok (.node (here ++ [name]) (.file bytes modified))
        else .error .notDirectory
      | some (.link target) =>
        if rest.isEmpty && !follow then .ok (.node (here ++ [name]) (.link target))
        else
          match links with
          | 0 => .error .tooManyLinks
          | links + 1 =>
            walk top follow links (if startsAtTop target then [] else here) (steps target ++ rest)
termination_by pieces => (links, pieces.length)

/-- The number of links that a walk may follow. -/
def linkLimit : Nat := 40

/-- The directory that a path starts from. -/
def origin (d : Disk) (text : String) : List String :=
  if startsAtTop text then [] else d.workingDirectory

/-- What a path leads to. -/
def find (d : Disk) (follow : Bool) (p : Path) : Except DiskError Found := do
  checkPath p.text
  walk d.top follow linkLimit (d.origin p.text) (steps p.text)

/-- The node that a path leads to. -/
def node (d : Disk) (p : Path) : Except DiskError Node := do
  match ← d.find true p with
  | .node _ node => return node
  | .missing .. => throw .notFound

/-! ### Reading -/

def status (d : Disk) (p : Path) : Except DiskError Status := do
  match ← d.node p with
  | .file bytes modified => return ⟨true, false, bytes.length, modified⟩
  | .directory _ => return ⟨false, true, 4096, d.now⟩
  | .link _ => throw .notFound

/-- The bytes of a file. -/
def read (d : Disk) (p : Path) : Except DiskError (List UInt8) := do
  match ← d.node p with
  | .file bytes _ => return bytes
  | .directory _ => throw .isDirectory
  | .link _ => throw .notFound

/-- The listing of the tree at a path.  The path itself may be a link to a directory; any other
link is not followed. -/
def list (d : Disk) (p : Path) (keep : List String → Bool) : Except DiskError Listing := do
  match ← d.find false p with
  | .missing .. => throw .notFound
  | .node _ (.link _) =>
    let target ← d.node p
    return if target.isDirectory then target.listing keep [] else .link
  | .node _ node => return node.listing keep []

/-! ### Changing -/

/-- The directory and the name that a path speaks of, when its last piece is a name. -/
structure Slot where
  directory : List String
  name : String
  /-- The path ends in a slash. -/
  slash : Bool

/-- Finds the directory of a path's last piece, which is not looked up; a path without a name at
the end fails with `noName`. -/
def slot (d : Disk) (noName : DiskError) (p : Path) : Except DiskError Slot := do
  checkPath p.text
  let all := pieces p.text
  match ← walk d.top true linkLimit (d.origin p.text) all.dropLast with
  | .node directory (.directory _) =>
    match all.getLast? with
    | none | some "." | some ".." => throw noName
    | some name =>
      if nameLimit < name.utf8ByteSize then throw .nameTooLong
      return ⟨directory, name, p.text.toList.getLast? = some '/'⟩
  | .node .. => throw .notDirectory
  | .missing .. => throw .notFound

/-- Puts a node under a name of a directory. -/
def put (d : Disk) (directory : List String) (name : String) (node : Node) : Disk :=
  { d with top := d.top.change (Node.put name node) directory }

/-- What stands under the name of a slot. -/
def inSlot? (d : Disk) (s : Slot) : Option Node := d.top.at? (s.directory ++ [s.name])

/-- Makes an empty directory. -/
def makeDirectory (d : Disk) (p : Path) : Except DiskError Disk := do
  let s ← d.slot .alreadyExists p
  match d.inSlot? s with
  | some _ => throw .alreadyExists
  | none => return d.put s.directory s.name (.directory [])

/-- Makes a link that stands for another path. -/
def makeLink (d : Disk) (target : String) (p : Path) : Except DiskError Disk := do
  let s ← d.slot .alreadyExists p
  match d.inSlot? s with
  | some _ => throw .alreadyExists
  | none => return d.put s.directory s.name (.link target)

/-- Puts a file with the given bytes at a path, in place of the file that is there. -/
def writeBytes (d : Disk) (p : Path) (bytes : List UInt8) : Except DiskError Disk := do
  match ← d.find true p with
  | .missing directory name => return d.put directory name (.file bytes d.now)
  | .node place (.file ..) =>
    return { d with top := d.top.change (fun _ => .file bytes d.now) place }
  | .node _ _ => throw .isDirectory

/-- Moves a file to another path, in place of the file that is there. -/
def rename (d : Disk) (source target : Path) : Except DiskError Disk := do
  let s ← d.slot .busy source
  let t ← d.slot .busy target
  match d.inSlot? s with
  | none => throw .notFound
  | some node =>
    if t.slash && !node.isDirectory then throw .notDirectory
    match d.inSlot? t with
    | some (.directory _) => if !node.isDirectory then throw .isDirectory
    | some _ => if node.isDirectory then throw .notDirectory
    | none => pure ()
    let without := { d with top := d.top.change (Node.drop s.name) s.directory }
    return without.put t.directory t.name node

/-- Removes a file. -/
def remove (d : Disk) (p : Path) : Except DiskError Disk := do
  let s ← d.slot .isDirectory p
  match d.inSlot? s with
  | none => throw .notFound
  | some (.directory _) => throw .isDirectory
  | some _ =>
    if s.slash then throw .notDirectory
    return { d with top := d.top.change (Node.drop s.name) s.directory }

end Disk

end PackageRouting
