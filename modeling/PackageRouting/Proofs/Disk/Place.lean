/-
PackageRouting/Proofs/Disk/Place.lean

The place that a path leads to.

On a disk without links a walk goes where the components of its path say, whatever
is on the way (`walk_leads`).  So what is read of a path is the file at its place
(`file_of_read`), and a path that leads to a file goes on to do so while
directories stay (`read_persists`).
-/
import PackageRouting.Proofs.Disk.Kind
import PackageRouting.Proofs.Disk.Tree
import PackageRouting.Proofs.Path.Join

namespace PackageRouting

open Node (Kind)

/-- The place that a component leads to from another. -/
def Component.lead (place : List String) : Component → List String
  | .root => []
  | .here => place
  | .up => place.dropLast
  | .name t => place ++ [t]

namespace Disk

/-- The place that a path leads to on a disk without links, if it leads anywhere. -/
def placeOf (d : Disk) (p : Path) : List String :=
  p.components.foldl Component.lead d.workingDirectory

/-- A disk without links, on which relative paths start from a directory. -/
structure IsPlain (d : Disk) : Prop where
  linkless : ∀ place target, d.top.kindAt? place ≠ some (.link target)
  workingDirectory : d.top.kindAt? d.workingDirectory = some .directory

variable {d d' : Disk} {top top' : Node} {p : Path} {here place pieces : List String}
  {follow : Bool} {links : Nat} {found : Found} {node : Node} {name : String}

/-! ### Pieces -/

/-- The place that a piece of a path leads to from another. -/
def leadPiece (place : List String) (piece : String) : List String :=
  if piece = "." then place else if piece = ".." then place.dropLast else place ++ [piece]

theorem leadPiece_name (hdot : name ≠ ".") (hup : name ≠ "..") (place : List String) :
    leadPiece place name = place ++ [name] := by
  rw [leadPiece, if_neg hdot, if_neg hup]

theorem foldl_leadPiece_filter (segments place : List String) :
    (segments.filter (· ≠ "")).foldl leadPiece place =
      (segments.filterMap Path.laterComponent?).foldl Component.lead place := by
  induction segments generalizing place with
  | nil => rfl
  | cons s rest ih =>
    rw [List.filterMap_cons]
    by_cases hempty : s = ""
    · rw [List.filter_cons_of_neg (by simpa using hempty), ih, hempty]
      rfl
    rw [List.filter_cons_of_pos (by simpa using hempty), List.foldl_cons, ih]
    by_cases hdot : s = "."
    · rw [hdot]
      rfl
    by_cases hup : s = ".."
    · rw [hup]
      rfl
    have hname : Path.laterComponent? s = some (.name s) := by
      unfold Path.laterComponent?
      split <;> simp_all
    rw [leadPiece_name hdot hup, hname]
    rfl

theorem startsAtTop_iff : startsAtTop p.text ↔ Component.root ∈ p.components := by
  rw [Path.root_mem_components_iff, startsAtTop, decide_eq_true_eq]

/-- **The pieces lead where the components lead.** -/
theorem foldl_leadPiece_pieces (d : Disk) (p : Path) :
    (Disk.pieces p.text).foldl leadPiece (d.origin p.text) = d.placeOf p := by
  have hpieces : Disk.pieces p.text = p.segments.filter (· ≠ "") := rfl
  rw [hpieces, foldl_leadPiece_filter, placeOf, origin]
  by_cases hempty : p.text = ""
  · have hstart : ¬ startsAtTop p.text := by
      rw [hempty]
      decide
    rw [if_neg hstart, Path.segments_eq_empty_iff.2 hempty, Path.components_of_text_eq_empty hempty]
    rfl
  · have hroot := startsAtTop_iff (p := p)
    rw [Path.components_eq_steps hempty] at hroot ⊢
    cases hs : p.segments with
    | nil => exact absurd hs (Path.segments_ne_nil p)
    | cons first rest =>
      rw [hs] at hroot
      by_cases hfirst : first = ""
      · -- an empty piece in front is the root
        subst hfirst
        rw [if_pos (hroot.2 List.mem_cons_self)]
        rfl
      · have hstart : ¬ startsAtTop p.text := by
          rw [hroot]
          intro hmem
          have hlater := (List.mem_append.1 hmem).resolve_right
            (Path.root_notMem_filterMap_laterComponent? rest)
          unfold Path.firstComponent? at hlater
          split at hlater <;> simp_all
        rw [if_neg hstart]
        by_cases hdot : first = "."
        · -- a leading `.` leads nowhere else
          subst hdot
          rfl
        · rw [Path.steps, Path.firstComponent?_eq_laterComponent? hfirst hdot,
            List.filterMap_cons]
          cases Path.laterComponent? first <;> rfl

/-- A slash at the end leads nowhere else. -/
theorem foldl_leadPiece_steps (d : Disk) (p : Path) :
    (Disk.steps p.text).foldl leadPiece (d.origin p.text) = d.placeOf p := by
  rw [Disk.steps]
  split
  · rw [List.foldl_append, foldl_leadPiece_pieces]
    rfl
  · exact foldl_leadPiece_pieces d p

theorem IsPlain.kindAt?_origin (hd : d.IsPlain) (text : String) :
    d.top.kindAt? (d.origin text) = some .directory := by
  rw [origin]
  split
  · -- the top is above the working directory
    by_cases hempty : d.workingDirectory = []
    · rw [← hempty]
      exact hd.workingDirectory
    · have hexists : d.top.at? ([] ++ d.workingDirectory) ≠ none := by
        intro hnone
        rw [List.nil_append, ← Node.kindAt?_eq_none_iff, hd.workingDirectory] at hnone
        cases hnone
      exact Node.kindAt?_of_below hexists hempty
  · exact hd.workingDirectory

/-! ### Walks -/

/-- A walk came out at a place: at what stands there, or in the directory that misses it. -/
def Found.Leads (top : Node) (place : List String) : Found → Prop
  | .node end_ node => end_ = place ∧ top.at? place = some node
  | .missing directory name => directory ++ [name] = place ∧
      top.kindAt? directory = some .directory ∧ top.at? place = none

theorem kindAt?_dropLast (h : top.kindAt? here = some .directory) :
    top.kindAt? here.dropLast = some .directory := by
  rcases List.eq_nil_or_concat here with rfl | ⟨above, name, rfl⟩
  · exact h
  · rw [List.concat_eq_append] at h ⊢
    rw [List.dropLast_concat]
    have hexists : top.at? (above ++ [name]) ≠ none := by
      intro hnone
      rw [Node.kindAt?_eq_none_iff.2 hnone] at h
      cases h
    exact Node.kindAt?_of_below hexists (List.cons_ne_nil _ _)

/-- **Without links a walk leads where its pieces lead.** -/
theorem walk_leads (hlinks : ∀ place target, top.kindAt? place ≠ some (.link target))
    (hhere : top.kindAt? here = some .directory)
    (h : walk top follow links here pieces = .ok found) :
    found.Leads top (pieces.foldl leadPiece here) := by
  fun_induction walk top follow links here pieces with
  | case1 links here node hat =>
    cases h
    exact ⟨rfl, hat⟩
  | case2 => cases h
  | case3 links here rest ih => exact ih hhere h
  | case4 links here rest ih => exact ih (kindAt?_dropLast hhere) h
  | case5 => cases h
  | case6 links here name rest hdot hup hlong hat hlast =>
    cases h
    obtain rfl := List.isEmpty_iff.1 hlast
    rw [List.foldl_cons, leadPiece_name hdot hup]
    exact ⟨rfl, hhere, hat⟩
  | case7 => cases h
  | case8 links here name rest hdot hup hlong entries hat ih =>
    rw [List.foldl_cons, leadPiece_name hdot hup]
    exact ih (Node.kindAt?_of_at? hat) h
  | case9 links here name rest hdot hup hlong bytes modified hat hlast =>
    cases h
    obtain rfl := List.isEmpty_iff.1 hlast
    rw [List.foldl_cons, leadPiece_name hdot hup]
    exact ⟨rfl, hat⟩
  | case10 => cases h
  | case11 links here name rest hdot hup hlong target hat =>
    exact absurd (Node.kindAt?_of_at? hat) (hlinks _ _)
  | case12 here name rest hdot hup hlong target hat =>
    exact absurd (Node.kindAt?_of_at? hat) (hlinks _ _)
  | case13 here name rest hdot hup hlong target hat =>
    exact absurd (Node.kindAt?_of_at? hat) (hlinks _ _)

/-! ### Walks on another disk -/

section Persists

variable {entries : List (String × Node)} {bytes bytes' : List UInt8} {modified modified' : Int}

/-- Where directories stay, a walk to a directory goes on from there. -/
theorem walk_append (hlinks : ∀ place target, top.kindAt? place ≠ some (.link target))
    (hstay : ∀ place, top.kindAt? place = some .directory → top'.kindAt? place = some .directory)
    (h : walk top follow links here pieces = .ok (.node place (.directory entries)))
    (rest : List String) :
    walk top' follow links here (pieces ++ rest) = walk top' follow links place rest := by
  fun_induction walk top follow links here pieces with
  | case1 links here node hat =>
    cases h
    rfl
  | case3 links here rest ih =>
    rw [List.cons_append, walk]
    exact ih h
  | case4 links here rest ih =>
    rw [List.cons_append, walk]
    exact ih h
  | case8 links here name rest hdot hup hlong entries hat ih =>
    obtain ⟨entries', hat'⟩ :=
      Node.kindAt?_eq_directory_iff.1 (hstay _ (Node.kindAt?_of_at? hat))
    rw [List.cons_append, walk, if_neg hlong, hat']
    · exact ih h
    · exact hdot
    · exact hup
  | case11 links here name rest hdot hup hlong target hat =>
    exact absurd (Node.kindAt?_of_at? hat) (hlinks _ _)
  | case12 here name rest hdot hup hlong target hat =>
    exact absurd (Node.kindAt?_of_at? hat) (hlinks _ _)
  | case13 here name rest hdot hup hlong target hat =>
    exact absurd (Node.kindAt?_of_at? hat) (hlinks _ _)
  | _ => cases h

/-- **Where directories stay, a walk to a file comes to the file that is there now.** -/
theorem walk_persists (hlinks : ∀ place target, top.kindAt? place ≠ some (.link target))
    (hstay : ∀ place, top.kindAt? place = some .directory → top'.kindAt? place = some .directory)
    (hfile : top'.at? place = some (.file bytes' modified'))
    (h : walk top follow links here pieces = .ok (.node place (.file bytes modified))) :
    walk top' follow links here pieces = .ok (.node place (.file bytes' modified')) := by
  fun_induction walk top follow links here pieces with
  | case1 links here node hat =>
    cases h
    rw [walk, hfile]
  | case3 links here rest ih =>
    rw [walk]
    exact ih h
  | case4 links here rest ih =>
    rw [walk]
    exact ih h
  | case8 links here name rest hdot hup hlong entries hat ih =>
    obtain ⟨entries', hat'⟩ :=
      Node.kindAt?_eq_directory_iff.1 (hstay _ (Node.kindAt?_of_at? hat))
    rw [walk, if_neg hlong, hat']
    · exact ih h
    · exact hdot
    · exact hup
  | case9 links here name rest hdot hup hlong bytes modified hat hlast =>
    cases h
    rw [walk, if_neg hlong, hfile]
    · exact if_pos hlast
    · exact hdot
    · exact hup
  | case11 links here name rest hdot hup hlong target hat =>
    exact absurd (Node.kindAt?_of_at? hat) (hlinks _ _)
  | case12 here name rest hdot hup hlong target hat =>
    exact absurd (Node.kindAt?_of_at? hat) (hlinks _ _)
  | case13 here name rest hdot hup hlong target hat =>
    exact absurd (Node.kindAt?_of_at? hat) (hlinks _ _)
  | _ => cases h

end Persists

/-! ### Reading -/

theorem leads_of_find (hd : d.IsPlain) (h : d.find follow p = .ok found) :
    found.Leads d.top (d.placeOf p) := by
  rw [← foldl_leadPiece_steps]
  exact walk_leads hd.linkless (hd.kindAt?_origin _) (find_eq_ok_iff.1 h).2

/-- **What is read of a path is the file at its place.** -/
theorem file_of_read {bytes : List UInt8} (hd : d.IsPlain) (h : d.read p = .ok bytes) :
    ∃ modified, d.top.kindAt? (d.placeOf p) = some (.file bytes modified) := by
  obtain ⟨hpath, place, modified, hwalk⟩ := read_eq_ok_iff.1 h
  obtain ⟨rfl, hat⟩ := leads_of_find hd (find_eq_ok_iff.2 ⟨hpath, hwalk⟩)
  exact ⟨modified, Node.kindAt?_of_at? hat⟩

/-- **Where directories stay, a path that was read goes on to lead to the file at its place.** -/
theorem read_persists {bytes bytes' : List UInt8} {modified' : Int} (hd : d.IsPlain)
    (hwork : d'.workingDirectory = d.workingDirectory)
    (hstay : ∀ place, d.top.kindAt? place = some .directory →
      d'.top.kindAt? place = some .directory)
    (hfile : d'.top.kindAt? (d.placeOf p) = some (.file bytes' modified'))
    (h : d.read p = .ok bytes) : d'.read p = .ok bytes' := by
  obtain ⟨hpath, place, modified, hwalk⟩ := read_eq_ok_iff.1 h
  obtain ⟨rfl, -⟩ := leads_of_find hd (find_eq_ok_iff.2 ⟨hpath, hwalk⟩)
  refine read_eq_ok_iff.2 ⟨hpath, d.placeOf p, modified', ?_⟩
  rw [origin, hwork]
  exact walk_persists hd.linkless hstay (Node.kindAt?_eq_file_iff.1 hfile) hwalk

end Disk

end PackageRouting
