/-
PackageRouting/Proofs/Disk/Kind.lean

A directory tree as a function of places.

What stands at a place, apart from what is below it, is its kind; a tree is
looked at through the kinds of all its places.  A change at one place leaves the
kinds of all places that are not below it (`kindAt?_change`), so where nothing is
below, to put an entry, to drop one or to fill a file is to change the kind of
one place (`kindAt?_put`, `kindAt?_drop`, `kindAt?_fill`).
-/
import Mathlib.Logic.Function.Basic
import PackageRouting.Disk.Node

namespace PackageRouting

namespace Node

variable {tree node child : Node} {entries : List (String × Node)} {name other : String}
  {place rest : List String} {f : Node → Node}

/-- What stands at a place, apart from what is below it. -/
inductive Kind where
  | file (bytes : List UInt8) (modified : Int)
  | link (target : String)
  | directory
  deriving DecidableEq

/-- The kind of the top of a tree. -/
def kind : Node → Kind
  | file bytes modified => .file bytes modified
  | link target => .link target
  | directory _ => .directory

/-- The kind of what stands at a place. -/
def kindAt? (tree : Node) (place : List String) : Option Kind := (tree.at? place).map kind

theorem kindAt?_of_at? (h : tree.at? place = some node) : tree.kindAt? place = some node.kind := by
  rw [kindAt?, h]
  rfl

theorem kindAt?_eq_none_iff : tree.kindAt? place = none ↔ tree.at? place = none :=
  Option.map_eq_none_iff

theorem kindAt?_eq_file_iff {bytes : List UInt8} {modified : Int} :
    tree.kindAt? place = some (.file bytes modified) ↔
      tree.at? place = some (.file bytes modified) := by
  refine ⟨fun h => ?_, kindAt?_of_at?⟩
  obtain ⟨node, hnode, hkind⟩ := Option.map_eq_some_iff.1 h
  cases node with
  | file bytes modified =>
    cases hkind
    exact hnode
  | link target => cases hkind
  | directory entries => cases hkind

theorem kindAt?_eq_directory_iff :
    tree.kindAt? place = some .directory ↔
      ∃ entries, tree.at? place = some (.directory entries) := by
  constructor
  · intro h
    obtain ⟨node, hnode, hkind⟩ := Option.map_eq_some_iff.1 h
    cases node with
    | directory entries => exact ⟨entries, hnode⟩
    | file bytes modified => cases hkind
    | link target => cases hkind
  · rintro ⟨entries, h⟩
    exact kindAt?_of_at? h

/-! ### Places below a place -/

theorem at?_append (place rest : List String) (tree : Node) :
    tree.at? (place ++ rest) = (tree.at? place).bind (at? rest) := by
  induction place generalizing tree with
  | nil => rfl
  | cons name place ih =>
    rw [List.cons_append, at?, at?]
    cases tree.child? name with
    | none => rfl
    | some child => exact ih child

/-- Only directories have something below them. -/
theorem at?_cons_eq_none (h : tree.kind ≠ .directory) (name : String) (rest : List String) :
    tree.at? (name :: rest) = none := by
  cases tree with
  | directory entries => exact absurd rfl h
  | file bytes modified => rfl
  | link target => rfl

theorem at?_below_eq_none (h : tree.kindAt? place ≠ some .directory) (hrest : rest ≠ []) :
    tree.at? (place ++ rest) = none := by
  obtain ⟨name, rest, rfl⟩ := List.exists_cons_of_ne_nil hrest
  rw [at?_append]
  cases hat : tree.at? place with
  | none => rfl
  | some node =>
    have hkind : node.kind ≠ .directory := fun hkind => h (by rw [kindAt?_of_at? hat, hkind])
    exact at?_cons_eq_none hkind name rest

/-- The places on the way to something are directories. -/
theorem kindAt?_of_below (h : tree.at? (place ++ rest) ≠ none) (hrest : rest ≠ []) :
    tree.kindAt? place = some .directory := by
  by_contra hkind
  exact h (at?_below_eq_none hkind hrest)

/-! ### Entries -/

theorem entryIn?_putEntry (name : String) (node : Node) (entries : List (String × Node))
    (other : String) :
    entryIn? other (putEntry name node entries) =
      if other = name then some node else entryIn? other entries := by
  induction entries with
  | nil => simp [putEntry, entryIn?, eq_comm]
  | cons e entries ih =>
    obtain ⟨n, first⟩ := e
    rw [putEntry]
    by_cases hn : n = name
    · subst hn
      by_cases hother : other = n
      · simp [entryIn?, hother]
      · simp [entryIn?, hother, Ne.symm hother]
    · rw [if_neg hn, entryIn?, ih, entryIn?]
      by_cases hother : n = other
      · subst hother
        simp [hn]
      · simp [hother]

theorem entryIn?_filter (name : String) (entries : List (String × Node)) (other : String) :
    entryIn? other (entries.filter (·.1 ≠ name)) =
      if other = name then none else entryIn? other entries := by
  induction entries with
  | nil => simp [entryIn?]
  | cons e entries ih =>
    obtain ⟨n, first⟩ := e
    by_cases hn : n = name
    · subst hn
      rw [List.filter_cons_of_neg (by simp), ih, entryIn?]
      by_cases hother : other = n
      · simp [hother]
      · simp [hother, Ne.symm hother]
    · rw [List.filter_cons_of_pos (by simpa using hn), entryIn?, ih, entryIn?]
      by_cases hother : n = other
      · subst hother
        simp [hn]
      · simp [hother]

/-! ### A change at a place -/

/-- At and below the place of a change stands what the change makes of it. -/
theorem at?_change (f : Node → Node) (place rest : List String) (tree : Node) :
    (tree.change f place).at? (place ++ rest) = ((tree.at? place).map f).bind (at? rest) := by
  induction place generalizing tree with
  | nil => rfl
  | cons name place ih =>
    cases tree with
    | file bytes modified => rfl
    | link target => rfl
    | directory entries =>
      rw [change, List.cons_append, at?, at?]
      show (child? name _).bind _ = (((entryIn? name entries).bind (at? place)).map f).bind _
      cases hentry : entryIn? name entries with
      | none =>
        show (entryIn? name entries).bind _ = none
        rw [hentry]
        rfl
      | some child =>
        show (entryIn? name (putEntry name (change f place child) entries)).bind _ = _
        rw [entryIn?_putEntry, if_pos rfl]
        exact ih child

/-- **A change at a place does not show elsewhere**, but for what is below it. -/
theorem kindAt?_change {other : List String} (h : ¬ place <+: other) :
    (tree.change f place).kindAt? other = tree.kindAt? other := by
  induction place generalizing tree other with
  | nil => exact absurd List.nil_prefix h
  | cons name place ih =>
    cases tree with
    | file bytes modified => rfl
    | link target => rfl
    | directory entries =>
      rw [change]
      cases hentry : entryIn? name entries with
      | none => rfl
      | some child =>
        cases other with
        | nil => rfl
        | cons n other =>
          rw [kindAt?, kindAt?, at?, at?]
          show ((entryIn? n (putEntry name (change f place child) entries)).bind _).map _ =
            ((entryIn? n entries).bind _).map _
          rw [entryIn?_putEntry]
          by_cases hn : n = name
          · subst hn
            rw [if_pos rfl, hentry]
            exact ih fun hprefix => h (List.cons_prefix_cons.2 ⟨rfl, hprefix⟩)
          · rw [if_neg hn]

/-- A change where nothing is below, before or after, is a change of one kind. -/
theorem kindAt?_eq_update {tree' : Node} (hbefore : tree.kindAt? place ≠ some .directory)
    (hafter : ∀ rest ≠ [], tree'.kindAt? (place ++ rest) = none)
    (helse : ∀ other, ¬ place <+: other → tree'.kindAt? other = tree.kindAt? other) :
    tree'.kindAt? = Function.update tree.kindAt? place (tree'.kindAt? place) := by
  funext other
  by_cases hother : other = place
  · rw [hother, Function.update_self]
  rw [Function.update_of_ne hother]
  by_cases hprefix : place <+: other
  · obtain ⟨rest, rfl⟩ := hprefix
    have hrest : rest ≠ [] := by
      rintro rfl
      exact hother (List.append_nil place)
    rw [hafter rest hrest, kindAt?_eq_none_iff.2 (at?_below_eq_none hbefore hrest)]
  · exact helse other hprefix

/-- A file gets other bytes. -/
theorem kindAt?_fill {bytes : List UInt8} {modified : Int} (h : tree.at? place = some node)
    (hnode : node.kind ≠ .directory) :
    (tree.change (fun _ => file bytes modified) place).kindAt? =
      Function.update tree.kindAt? place (some (.file bytes modified)) := by
  have hplace : (tree.change (fun _ => file bytes modified) place).at? place =
      some (file bytes modified) := by
    have hchange := at?_change (fun _ => file bytes modified) place [] tree
    rwa [List.append_nil, h] at hchange
  rw [kindAt?_eq_update (by rw [kindAt?_of_at? h]; simpa using hnode) ?_ fun _ => kindAt?_change,
    kindAt?_of_at? hplace]
  · rfl
  · intro rest hrest
    obtain ⟨name, rest, rfl⟩ := List.exists_cons_of_ne_nil hrest
    rw [kindAt?_eq_none_iff, at?_append, hplace]
    rfl

/-- One entry of a directory is changed, with nothing below it before or after. -/
theorem kindAt?_changeEntry {directory : List String} {entries' : List (String × Node)}
    (h : tree.at? directory = some (.directory entries))
    (hf : f (.directory entries) = .directory entries')
    (hother : ∀ other ≠ name, entryIn? other entries' = entryIn? other entries)
    (hbefore : tree.kindAt? (directory ++ [name]) ≠ some .directory)
    (hafter : ∀ rest ≠ [], (entryIn? name entries').bind (at? rest) = none) :
    (tree.change f directory).kindAt? =
      Function.update tree.kindAt? (directory ++ [name]) ((entryIn? name entries').map kind) := by
  have hinside : ∀ rest, (tree.change f directory).at? (directory ++ rest) =
      (Node.directory entries').at? rest := by
    intro rest
    rw [at?_change, h, ← hf]
    rfl
  have hentry : ∀ rest, (tree.change f directory).at? (directory ++ [name] ++ rest) =
      (entryIn? name entries').bind (at? rest) := by
    intro rest
    rw [List.append_assoc]
    exact hinside (name :: rest)
  have hplace : (tree.change f directory).at? (directory ++ [name]) = entryIn? name entries' := by
    have happend := hentry []
    rw [List.append_nil] at happend
    rw [happend]
    cases entryIn? name entries' <;> rfl
  rw [kindAt?_eq_update hbefore, kindAt?, hplace]
  · intro rest hrest
    rw [kindAt?_eq_none_iff, hentry]
    exact hafter rest hrest
  · intro place hplace
    by_cases hprefix : directory <+: place
    · obtain ⟨rest, rfl⟩ := hprefix
      rw [kindAt?, kindAt?, hinside, at?_append, h]
      cases rest with
      | nil => rfl
      | cons other rest =>
        have hne : other ≠ name := by
          rintro rfl
          exact hplace ⟨rest, by simp⟩
        show ((entryIn? other entries').bind _).map _ = ((entryIn? other entries).bind _).map _
        rw [hother other hne]
    · exact kindAt?_change hprefix

section Directory

variable {directory : List String}

/-- An entry without anything below it is put into a directory. -/
theorem kindAt?_put (h : tree.kindAt? directory = some .directory)
    (hbefore : tree.kindAt? (directory ++ [name]) ≠ some .directory)
    (hnode : ∀ rest ≠ [], node.at? rest = none) :
    (tree.change (Node.put name node) directory).kindAt? =
      Function.update tree.kindAt? (directory ++ [name]) (some node.kind) := by
  obtain ⟨entries, h⟩ := kindAt?_eq_directory_iff.1 h
  have hentry : entryIn? name (putEntry name node entries) = some node := by
    rw [entryIn?_putEntry, if_pos rfl]
  rw [kindAt?_changeEntry h rfl ?_ hbefore, hentry]
  · rfl
  · intro rest hrest
    rw [hentry]
    exact hnode rest hrest
  · intro other hother
    rw [entryIn?_putEntry, if_neg hother]

/-- An entry without anything below it is dropped from a directory. -/
theorem kindAt?_drop (h : tree.kindAt? directory = some .directory)
    (hbefore : tree.kindAt? (directory ++ [name]) ≠ some .directory) :
    (tree.change (Node.drop name) directory).kindAt? =
      Function.update tree.kindAt? (directory ++ [name]) none := by
  obtain ⟨entries, h⟩ := kindAt?_eq_directory_iff.1 h
  have hentry : entryIn? name (entries.filter (·.1 ≠ name)) = none := by
    rw [entryIn?_filter, if_pos rfl]
  rw [kindAt?_changeEntry h rfl ?_ hbefore, hentry]
  · rfl
  · intro rest _
    rw [hentry]
    rfl
  · intro other hother
    rw [entryIn?_filter, if_neg hother]

end Directory

end Node

end PackageRouting
