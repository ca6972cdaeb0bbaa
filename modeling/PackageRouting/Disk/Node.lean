/-
PackageRouting/Disk/Node.lean

Directory trees: files, links and directories, addressed by the names on the
way from the top.
-/
import PackageRouting.Path.Basic

namespace PackageRouting

/-- What stands at a place of a disk. -/
inductive Node where
  | file (bytes : List UInt8) (modified : Int)
  /-- A symbolic link, with the path that it stands for. -/
  | link (target : String)
  | directory (entries : List (String × Node))
  deriving Inhabited, Repr

namespace Node

/-- The entry of a name. -/
def entryIn? (name : String) : List (String × Node) → Option Node
  | [] => none
  | (n, node) :: rest => if n = name then some node else entryIn? name rest

/-- The entries with another node for a name; a new name is put last. -/
def putEntry (name : String) (node : Node) : List (String × Node) → List (String × Node)
  | [] => [(name, node)]
  | (n, old) :: rest =>
    if n = name then (n, node) :: rest else (n, old) :: putEntry name node rest

/-- The entry of a name in a directory. -/
def child? (name : String) : Node → Option Node
  | directory entries => entryIn? name entries
  | _ => none

/-- What stands at a place. -/
def at? : List String → Node → Option Node
  | [], node => some node
  | name :: rest, node => (node.child? name).bind (at? rest)

/-- Changes what stands at a place, if it is there. -/
def change (f : Node → Node) : List String → Node → Node
  | [], node => f node
  | name :: rest, directory entries =>
    match entryIn? name entries with
    | some child => directory (putEntry name (change f rest child) entries)
    | none => directory entries
  | _ :: _, node => node

/-- The directory with another node for a name. -/
def put (name : String) (child : Node) : Node → Node
  | directory entries => directory (putEntry name child entries)
  | node => node

/-- The directory without a name. -/
def drop (name : String) : Node → Node
  | directory entries => directory (entries.filter (·.1 ≠ name))
  | node => node

def isDirectory : Node → Bool
  | directory _ => true
  | _ => false

/-! ### Files -/

mutual

/-- The files of a tree with their places, which start with `above`. -/
def files (above : List String) : Node → List (List String × List UInt8)
  | file bytes _ => [(above, bytes)]
  | link _ => []
  | directory entries => entryFiles above entries

/-- The files of the entries of a directory. -/
def entryFiles (above : List String) : List (String × Node) → List (List String × List UInt8)
  | [] => []
  | (name, node) :: rest => files (above ++ [name]) node ++ entryFiles above rest

end

end Node

/-- A listing of a directory tree, without what is in the files. -/
inductive Listing where
  | file
  | link
  | directory (entries : List (String × Listing))
  deriving Inhabited, Repr

namespace Node

mutual

/-- The listing of a tree at the place `above`; a directory below it shows only if `keep` holds of
its place. -/
def listing (keep : List String → Bool) (above : List String) : Node → Listing
  | file .. => .file
  | link _ => .link
  | directory entries => .directory (entryListings keep above entries)

/-- The listings of the entries of a directory. -/
def entryListings (keep : List String → Bool) (above : List String) :
    List (String × Node) → List (String × Listing)
  | [] => []
  | (name, node) :: rest =>
    if node.isDirectory && !keep (above ++ [name]) then entryListings keep above rest
    else (name, listing keep (above ++ [name]) node) :: entryListings keep above rest

end

end Node

end PackageRouting
