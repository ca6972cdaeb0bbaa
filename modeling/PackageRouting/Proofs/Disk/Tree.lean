/-
PackageRouting/Proofs/Disk/Tree.lean

The files of a directory tree by their places, and the tree that a path leads
to.

The entries of a directory have different names, each of which is a name that a
path can hold (`Node.WellNamed`), so an entry is found by its name and a place
is read off the path that it is written as.  A walk that does not follow a link
at its end comes out where the walk that does comes out, or at that link
(`Disk.walk_unfollowed`).

Main result: `Disk.list_of_node`.
-/
import PackageRouting.Disk.Basic
import PackageRouting.Proofs.Except
import PackageRouting.Proofs.Path.Normal

namespace PackageRouting

namespace Node

/-! ### Names -/

/-- The names in each directory are different from each other and proper names. -/
inductive WellNamed : Node → Prop
  | file (bytes : List UInt8) (modified : Int) : WellNamed (file bytes modified)
  | link (target : String) : WellNamed (link target)
  | directory {entries : List (String × Node)} (hdistinct : (entries.map (·.1)).Nodup)
      (hproper : ∀ name ∈ entries.map (·.1), Component.IsProperName name)
      (hbelow : ∀ e ∈ entries, WellNamed e.2) : WellNamed (directory entries)

variable {name : String} {node : Node} {entries : List (String × Node)}

/-- Under different names every entry is found. -/
theorem entryIn?_eq_some_iff (h : (entries.map (·.1)).Nodup) :
    entryIn? name entries = some node ↔ (name, node) ∈ entries := by
  induction entries with
  | nil => simp [entryIn?]
  | cons e rest ih =>
    obtain ⟨n, first⟩ := e
    obtain ⟨hn, hrest⟩ := List.nodup_cons.1 h
    rw [entryIn?, List.mem_cons, Prod.mk.injEq]
    split
    · next heq =>
      subst heq
      have hlater : (n, node) ∉ rest := fun hmem => hn (List.mem_map.2 ⟨_, hmem, rfl⟩)
      simp [hlater, eq_comm]
    · next hne =>
      rw [ih hrest]
      simp [Ne.symm hne]

/-! ### Files -/

/-- There is a regular file at a place of the tree.  Links are not followed. -/
def HasFile (tree : Node) (place : List String) : Prop :=
  ∃ bytes modified, tree.at? place = some (file bytes modified)

variable {place : List String}

theorem hasFile_file_iff {bytes : List UInt8} {modified : Int} :
    (file bytes modified).HasFile place ↔ place = [] := by
  cases place with
  | nil => simp [HasFile, at?]
  | cons name rest => simp [HasFile, at?, child?]

theorem not_hasFile_link (target : String) (place : List String) :
    ¬ (link target).HasFile place := by
  cases place with
  | nil => simp [HasFile, at?]
  | cons name rest => simp [HasFile, at?, child?]

/-- A file below a directory is a file of one of its entries. -/
theorem hasFile_directory_iff (h : (entries.map (·.1)).Nodup) :
    (directory entries).HasFile place ↔
      ∃ e ∈ entries, ∃ rest, place = e.1 :: rest ∧ e.2.HasFile rest := by
  cases place with
  | nil => simp [HasFile, at?]
  | cons name rest =>
    have hat : ∀ found, (directory entries).at? (name :: rest) = some found ↔
        ∃ node, (name, node) ∈ entries ∧ node.at? rest = some found := by
      intro found
      rw [at?, child?, Option.bind_eq_some_iff]
      simp only [entryIn?_eq_some_iff h]
    simp only [HasFile, hat, List.cons.injEq]
    constructor
    · rintro ⟨bytes, modified, node, hmem, hfile⟩
      exact ⟨(name, node), hmem, rest, ⟨rfl, rfl⟩, bytes, modified, hfile⟩
    · rintro ⟨⟨_, node⟩, hmem, _, ⟨rfl, rfl⟩, bytes, modified, hfile⟩
      exact ⟨bytes, modified, node, hmem, hfile⟩

/-- Only a directory has files below itself. -/
theorem HasFile.isDirectory_iff (h : node.HasFile place) : node.isDirectory ↔ place ≠ [] := by
  cases node with
  | file bytes modified => simpa [isDirectory] using hasFile_file_iff.1 h
  | link target => exact absurd h (not_hasFile_link target place)
  | directory entries =>
    cases place with
    | nil => simp [HasFile, at?] at h
    | cons name rest => simp [isDirectory]

/-- The place of a file consists of proper names. -/
theorem WellNamed.isProperName (h : node.WellNamed) (hfile : node.HasFile place) :
    ∀ s ∈ place, Component.IsProperName s := by
  induction h generalizing place with
  | file bytes modified => simp [hasFile_file_iff.1 hfile]
  | link target => exact absurd hfile (not_hasFile_link target place)
  | directory hdistinct hproper _ ih =>
    obtain ⟨e, he, rest, rfl, hrest⟩ := (hasFile_directory_iff hdistinct).1 hfile
    exact List.forall_mem_cons.2 ⟨hproper e.1 (List.mem_map_of_mem he), ih e he hrest⟩

end Node

namespace Disk

/-! ### Paths that lead to a tree -/

/-- **Not following a link at the end changes a walk only where there is one.** -/
theorem walk_unfollowed {top : Node} {links : Nat} {here pieces : List String} {found : Found}
    (h : walk top true links here pieces = .ok found) :
    walk top false links here pieces = .ok found ∨
      ∃ place target, walk top false links here pieces = .ok (.node place (.link target)) := by
  fun_induction walk top true links here pieces with
  -- the steps that go on in both walks
  | case3 links here rest ih =>
    rw [walk]
    exact ih h
  | case4 links here rest ih =>
    rw [walk]
    exact ih h
  | case8 links here name rest hdot hup hlong entries hat ih =>
    rw [walk, if_neg hlong, hat]
    · exact ih h
    · exact hdot
    · exact hup
  | case13 here name rest hdot hup hlong target hat hlast links ih =>
    rw [walk, if_neg hlong, hat]
    · by_cases hrest : rest.isEmpty
      -- the walk that does not follow stops at the link
      · exact .inr ⟨here ++ [name], target, by simp [hrest]⟩
      · simpa [hrest] using ih (by simpa using h)
    · exact hdot
    · exact hup
  -- the walks end here in the same way
  | case1 | case6 | case9 => simp_all [walk]
  | case11 => simp_all
  | _ => cases h

variable {d : Disk} {p : Path} {tree : Node}

theorem find_eq_ok_iff {follow : Bool} {found : Found} :
    d.find follow p = .ok found ↔ checkPath p.text = .ok () ∧
      walk d.top follow linkLimit (d.origin p.text) (steps p.text) = .ok found := by
  rw [find, bind_eq_ok_iff]
  exact ⟨fun ⟨_, hpath, h⟩ => ⟨hpath, h⟩, fun ⟨hpath, h⟩ => ⟨(), hpath, h⟩⟩

/-- A path leads to the node where its walk ends. -/
theorem node_eq_ok_iff {node : Node} :
    d.node p = .ok node ↔ checkPath p.text = .ok () ∧
      ∃ place, walk d.top true linkLimit (d.origin p.text) (steps p.text) =
        .ok (.node place node) := by
  rw [Disk.node, bind_eq_ok_iff]
  constructor
  · rintro ⟨found, hfind, h⟩
    obtain ⟨hpath, hwalk⟩ := find_eq_ok_iff.1 hfind
    cases found with
    | missing directory name => cases h
    | node place found =>
      cases h
      exact ⟨hpath, place, hwalk⟩
  · rintro ⟨hpath, place, hwalk⟩
    exact ⟨_, find_eq_ok_iff.2 ⟨hpath, hwalk⟩, rfl⟩

/-- What is read of a path are the bytes of the file where its walk ends. -/
theorem read_eq_ok_iff {bytes : List UInt8} :
    d.read p = .ok bytes ↔ checkPath p.text = .ok () ∧
      ∃ place modified, walk d.top true linkLimit (d.origin p.text) (steps p.text) =
        .ok (.node place (.file bytes modified)) := by
  rw [read, bind_eq_ok_iff]
  constructor
  · rintro ⟨node, hnode, h⟩
    obtain ⟨hpath, place, hwalk⟩ := node_eq_ok_iff.1 hnode
    cases node with
    | directory entries => cases h
    | link target => cases h
    | file bytes modified =>
      cases h
      exact ⟨hpath, place, modified, hwalk⟩
  · rintro ⟨hpath, place, modified, hwalk⟩
    exact ⟨_, node_eq_ok_iff.2 ⟨hpath, place, hwalk⟩, rfl⟩

/-- **A directory is listed as the tree that the path leads to**, also where the path itself is a
link. -/
theorem list_of_node (h : d.node p = .ok tree) (hdirectory : tree.isDirectory)
    (keep : List String → Bool) : d.list p keep = .ok (tree.listing keep []) := by
  obtain ⟨hpath, place, hwalk⟩ := node_eq_ok_iff.1 h
  rw [list, find, hpath]
  show (walk d.top false linkLimit (d.origin p.text) (steps p.text) >>= fun found => _) = _
  rcases walk_unfollowed hwalk with hwalk | ⟨_, target, hwalk⟩
  · rw [hwalk]
    cases tree with
    | directory entries => rfl
    | _ => cases hdirectory
  · rw [hwalk]
    show (d.node p >>= fun target => _) = _
    rw [h]
    exact congrArg Except.ok (if_pos hdirectory)

end Disk

end PackageRouting
