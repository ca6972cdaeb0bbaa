/-
PackageRouting/Disk/Script.lean

Programs that call the disk.

A script is the calls that a program makes, each followed by what it does with
the answer.  Being data, a script can be run on a disk that is a value, on a
disk of which some calls fail, or on the disk of the machine; what it means is
`Script.run`.
-/
import PackageRouting.Disk.Basic

namespace PackageRouting

/-- A call of the disk, or of the clock. -/
inductive Call where
  | status (path : Path)
  | read (path : Path)
  /-- The listing of a tree, with the directories whose place satisfies `keep`. -/
  | list (path : Path) (keep : List String → Bool)
  | makeDirectory (path : Path)
  /-- Makes an empty file, or empties the file that is there. -/
  | create (path : Path)
  /-- Fills an empty file. -/
  | write (path : Path) (bytes : List UInt8)
  /-- Waits until a file's bytes are stored. -/
  | sync (path : Path)
  | rename (source target : Path)
  | remove (path : Path)
  /-- The time in milliseconds since some moment. -/
  | clock

namespace Call

/-- What a call answers. -/
def Answer : Call → Type
  | status _ => Except DiskError Status
  | read _ => Except DiskError (List UInt8)
  | list .. => Except DiskError Listing
  | clock => Nat
  | _ => Except DiskError Unit

/-- A call that changes the disk, or fails and leaves it as it is. -/
def changing (d : Disk) : Except DiskError Disk → Except DiskError Unit × Disk
  | .ok d' => (.ok (), d')
  | .error e => (.error e, d)

/-- The answer of a disk, and the disk afterwards. -/
def run (d : Disk) : (c : Call) → c.Answer × Disk
  | status p => (d.status p, d)
  | read p => (d.read p, d)
  | list p keep => (d.list p keep, d)
  | makeDirectory p => changing d (d.makeDirectory p)
  | create p => changing d (d.writeBytes p [])
  | write p bytes => changing d (d.writeBytes p bytes)
  | sync p => ((d.node p).map fun _ => (), d)
  | rename source target => changing d (d.rename source target)
  | remove p => changing d (d.remove p)
  | clock => (d.now.toNat, d)

end Call

/-- A program that calls the disk and then returns a value. -/
inductive Script (α : Type) where
  | done (a : α)
  | call (c : Call) (next : c.Answer → Script α)

namespace Script

variable {α β : Type}

/-- Goes on with another script. -/
def andThen (s : Script α) (f : α → Script β) : Script β :=
  match s with
  | done a => f a
  | call c next => call c fun answer => (next answer).andThen f

instance : Monad Script where
  pure := done
  bind := andThen

/-- The value that a script returns on a disk, and the disk afterwards. -/
def run : Script α → Disk → α × Disk
  | done a, d => (a, d)
  | call c next, d =>
    let (answer, d') := c.run d
    (next answer).run d'

/-- A script of one call. -/
def ask (c : Call) : Script c.Answer := call c done

def status (p : Path) : Script (Except DiskError Status) := ask (.status p)

def read (p : Path) : Script (Except DiskError (List UInt8)) := ask (.read p)

def list (p : Path) (keep : List String → Bool) : Script (Except DiskError Listing) :=
  ask (.list p keep)

def makeDirectory (p : Path) : Script (Except DiskError Unit) := ask (.makeDirectory p)

def create (p : Path) : Script (Except DiskError Unit) := ask (.create p)

def write (p : Path) (bytes : List UInt8) : Script (Except DiskError Unit) := ask (.write p bytes)

def sync (p : Path) : Script (Except DiskError Unit) := ask (.sync p)

def rename (source target : Path) : Script (Except DiskError Unit) := ask (.rename source target)

def remove (p : Path) : Script (Except DiskError Unit) := ask (.remove p)

def clock : Script Nat := ask .clock

/-- Whether there is a directory at a path. -/
def isDirectory (p : Path) : Script Bool := do
  match ← status p with
  | .ok s => return s.isDirectory
  | .error _ => return false

/-- Whether there is a file at a path. -/
def isFile (p : Path) : Script Bool := do
  match ← status p with
  | .ok s => return s.isFile
  | .error _ => return false

end Script

end PackageRouting
