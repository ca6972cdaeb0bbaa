/-
PackageRouting/Proofs/Scan.lean

What a scan finds.

The places in a listing are the places of the files that no directory hides
(`mem_filePlaces_listing`), each of them once (`nodup_filePlaces_listing`).  A
place consists of proper names, so its path has them as components and two
places never have one path; which directories are left out is therefore a
matter of names (`isPruned_iff`), and sorting the paths puts them in strict
order (`isIncreasing_inOrder`).

Two strictly ordered lists with the same members are equal.  A scan is thus
determined by the files that it sees, of which none is below the output
directory (`DifferOnlyBelow.isSeen_iff`).

Main result: `Script.scan_isExact`.
-/
import Mathlib.Data.List.Sort
import PackageRouting.Proofs.Disk.Tree
import PackageRouting.Scan

namespace PackageRouting

open Std

namespace SourceSet

attribute [ext] SourceSet

/-! ### The places in a listing -/

section Places

variable {keep : List String → Bool} {node : Node} {above place : List String}

theorem entryPlaces_entryListings (keep : List String → Bool) (above : List String)
    (entries : List (String × Node)) :
    entryPlaces above (Node.entryListings keep above entries) = entries.flatMap fun e =>
      if e.2.isDirectory && !keep (above ++ [e.1]) then []
      else filePlaces (above ++ [e.1]) (e.2.listing keep (above ++ [e.1])) := by
  induction entries with
  | nil => rfl
  | cons e rest ih =>
    obtain ⟨name, node⟩ := e
    rw [Node.entryListings, List.flatMap_cons, ← ih]
    split
    · rfl
    · rw [entryPlaces]

/-- Every directory on the way to a place is kept, the place itself apart. -/
def IsReached (keep : List String → Bool) (above place : List String) : Prop :=
  ∀ front back, place = front ++ back → front ≠ [] → back ≠ [] → keep (above ++ front)

theorem isReached_nil : IsReached keep above [] := by
  intro front back hplace hfront
  exact absurd (List.append_eq_nil_iff.1 hplace.symm).1 hfront

/-- On the way through a directory there is the directory, and what is on the way below it. -/
theorem isReached_cons_iff {name : String} :
    IsReached keep above (name :: place) ↔
      (place ≠ [] → keep (above ++ [name])) ∧ IsReached keep (above ++ [name]) place := by
  constructor
  · intro h
    refine ⟨fun hplace => h [name] place rfl (by simp) hplace, ?_⟩
    rintro front back rfl - hback
    rw [List.append_assoc]
    exact h (name :: front) back rfl (by simp) hback
  · rintro ⟨hname, hbelow⟩ front back hplace hfront hback
    obtain ⟨first, front, rfl⟩ := List.exists_cons_of_ne_nil hfront
    obtain ⟨rfl, rfl⟩ := List.cons.inj hplace
    by_cases hnil : front = []
    · subst hnil
      exact hname hback
    · simpa using hbelow front back rfl hnil hback

/-- **The places in a listing are those of the files that are reached.** -/
theorem mem_filePlaces_listing (h : node.WellNamed) :
    place ∈ filePlaces above (node.listing keep above) ↔
      ∃ below, place = above ++ below ∧ node.HasFile below ∧ IsReached keep above below := by
  induction h generalizing above place with
  | file bytes modified => simp [Node.listing, filePlaces, Node.hasFile_file_iff, isReached_nil]
  | link target => simp [Node.listing, filePlaces, Node.not_hasFile_link]
  | @directory entries hdistinct _ _ ih =>
    rw [Node.listing, filePlaces, entryPlaces_entryListings, List.mem_flatMap]
    constructor
    · rintro ⟨e, he, hmem⟩
      obtain ⟨hkeep, hmem⟩ := List.mem_ite_nil_left.1 hmem
      obtain ⟨below, rfl, hfile, hreached⟩ := (ih e he).1 hmem
      have hname : below ≠ [] → keep (above ++ [e.1]) := by
        intro hne
        simpa [hfile.isDirectory_iff.2 hne] using hkeep
      exact ⟨e.1 :: below, by simp,
        (Node.hasFile_directory_iff hdistinct).2 ⟨e, he, below, rfl, hfile⟩,
        isReached_cons_iff.2 ⟨hname, hreached⟩⟩
    · rintro ⟨_, rfl, hentry, hreached⟩
      obtain ⟨e, he, below, rfl, hfile⟩ := (Node.hasFile_directory_iff hdistinct).1 hentry
      obtain ⟨hname, hbelow⟩ := isReached_cons_iff.1 hreached
      refine ⟨e, he, List.mem_ite_nil_left.2 ⟨?_, (ih e he).2 ⟨below, by simp, hfile, hbelow⟩⟩⟩
      intro hskip
      obtain ⟨hdirectory, hkeep⟩ := Bool.and_eq_true_iff.1 hskip
      rw [hname (hfile.isDirectory_iff.1 hdirectory)] at hkeep
      cases hkeep

/-- **No place is listed twice.** -/
theorem nodup_filePlaces_listing (h : node.WellNamed) :
    (filePlaces above (node.listing keep above)).Nodup := by
  induction h generalizing above with
  | file bytes modified => simp [Node.listing, filePlaces]
  | link target => simp [Node.listing, filePlaces]
  | @directory entries hdistinct _ hbelow ih =>
    rw [Node.listing, filePlaces, entryPlaces_entryListings, List.nodup_flatMap]
    -- the places of an entry go on with its name
    have hplaces : ∀ e ∈ entries, ∀ place ∈ (if e.2.isDirectory && !keep (above ++ [e.1]) then []
        else filePlaces (above ++ [e.1]) (e.2.listing keep (above ++ [e.1]))),
        ∃ below, place = above ++ e.1 :: below := by
      intro e he place hplace
      obtain ⟨below, rfl, -⟩ :=
        (mem_filePlaces_listing (hbelow e he)).1 (List.mem_ite_nil_left.1 hplace).2
      exact ⟨below, by simp⟩
    constructor
    · intro e he
      split
      · exact List.nodup_nil
      · exact ih e he
    · refine (List.pairwise_map.1 hdistinct).imp_of_mem ?_
      intro e e' he he' hne place hplace hplace'
      obtain ⟨below, rfl⟩ := hplaces e he place hplace
      obtain ⟨below', hbelow'⟩ := hplaces e' he' _ hplace'
      exact hne (List.cons.inj (List.append_cancel_left hbelow')).1

end Places

/-! ### Paths of places -/

section Paths

variable {place place' above : List String} {name : String} {root outDir : Path}

theorem text_placePath (place : List String) :
    (placePath place).text = Component.render (place.map .name) := by
  cases place with
  | nil => rfl
  | cons name rest =>
    show _ = "/".intercalate (((name :: rest).map Component.name).map Component.text)
    rw [Component.map_text_names, placePath]

/-- The path of a place has the names of the place as components. -/
theorem components_placePath (h : ∀ s ∈ place, Component.IsProperName s) :
    (placePath place).components = place.map .name := by
  have hinner : ∀ c ∈ place.map Component.name, c.IsInner := by
    intro c hc
    obtain ⟨s, hs, rfl⟩ := List.mem_map.1 hc
    exact h s hs
  rw [← show (⟨(placePath place).text⟩ : Path) = placePath place from rfl, text_placePath,
    Component.components_render (.of_inner hinner)]

/-- Places with the same path are the same place. -/
theorem eq_of_placePath_equiv (h : ∀ s ∈ place, Component.IsProperName s)
    (h' : ∀ s ∈ place', Component.IsProperName s) (heq : placePath place ≈ placePath place') :
    place = place' := by
  have hnames : place.map Component.name = place'.map Component.name := by
    rw [← components_placePath h, ← components_placePath h']
    exact heq
  exact List.map_injective_iff.2 (fun _ _ => Component.name.inj) hnames

/-- The directory at a place below the root is left out: its name starts with a dot or is one of
two names, or it is the output directory, as seen from the root or with the root in front. -/
def IsLeftOut (root outDir : Path) (place : List String) : Prop :=
  (∃ name, place.getLast? = some name ∧
    ((∃ rest, name = "." ++ rest) ∨ name = "node_modules" ∨ name = "target")) ∨
  outDir.normalize.text ≠ "" ∧
    (outDir.normalize.components = place.map .name ∨
      outDir.normalize.components = root.components ++ place.map .name)

theorem toList_head?_eq_dot_iff {s : String} :
    s.toList.head? = some '.' ↔ ∃ rest, s = "." ++ rest := by
  rw [List.head?_eq_some_iff]
  constructor
  · rintro ⟨rest, hs⟩
    exact ⟨String.ofList rest, by rw [← String.toList_inj, hs]; simp⟩
  · rintro ⟨rest, rfl⟩
    exact ⟨rest.toList, by simp⟩

/-- **Which directories are not entered is a matter of names.** -/
theorem isPruned_iff (h : ∀ s ∈ place, Component.IsProperName s) (hne : place ≠ []) :
    isPruned root outDir.normalize place ↔ IsLeftOut root outDir place := by
  have hplace := components_placePath h
  have hjoin : (root.join (placePath place)).components = root.components ++ place.map .name := by
    rw [Path.components_join_names, hplace]
    simp [hplace, Component.isName]
  have hbelow : placePath place ≈ outDir.normalize ↔
      outDir.normalize.components = place.map .name := by
    rw [← hplace]
    exact eq_comm
  have hfull : root.join (placePath place) ≈ outDir.normalize ↔
      outDir.normalize.components = root.components ++ place.map .name := by
    rw [← hjoin]
    exact eq_comm
  have hlast : place.getLast? = some (place.getLast hne) := List.getLast?_eq_some_getLast hne
  simp [isPruned, IsLeftOut, hlast, hbelow, hfull, toList_head?_eq_dot_iff, skippedNames, or_assoc]

/-- A path has a script extension iff what follows its last slash does. -/
theorem exists_hasScriptStem_slash_iff {front : String} :
    (∃ stem, HasScriptStem (front ++ "/" ++ name) stem) ↔ ∃ stem, HasScriptStem name stem := by
  constructor
  · rintro ⟨stem, extension, hmem, htext⟩
    have hslash : '/' ∉ '.' :: extension.toList := by
      simpa using slash_notMem_of_mem_scriptExtensions extension hmem
    have hchars : front.toList ++ '/' :: name.toList = stem.toList ++ '.' :: extension.toList := by
      simpa using congrArg String.toList htext
    rcases List.append_eq_append_iff.1 hchars with ⟨between, -, hrest⟩ | ⟨between, -, hrest⟩
    · cases between with
      | nil => cases hrest
      | cons c between =>
        -- the dot stands behind the slash
        refine ⟨String.ofList between, extension, hmem, ?_⟩
        rw [← String.toList_inj, (List.cons.inj hrest).2]
        simp
    · exact absurd (hrest ▸ List.mem_append_right _ List.mem_cons_self) hslash
  · rintro ⟨stem, extension, hmem, rfl⟩
    exact ⟨front ++ "/" ++ stem, extension, hmem, by simp only [String.append_assoc]⟩

/-- Whether a file is a script is a matter of its name. -/
theorem isScript_placePath (h : ∀ s ∈ above ++ [name], Component.IsProperName s) :
    (placePath (above ++ [name])).isScript ↔ ∃ stem, HasScriptStem name stem := by
  have htext : (placePath (above ++ [name])).toSlash = "/".intercalate (above ++ [name]) := by
    rw [Path.toSlash, components_placePath h, ← text_placePath, placePath]
  rw [Path.isScript, htext, isSome_splitScript?_iff]
  by_cases habove : above = []
  · rw [habove, List.nil_append, String.intercalate_singleton]
  · rw [String.intercalate_append_of_ne_nil habove (by simp), String.intercalate_singleton,
      exists_hasScriptStem_slash_iff]

end Paths

/-! ### Paths in order -/

/-- Every path comes before those behind it. -/
def IsIncreasing (paths : List Path) : Prop := paths.Pairwise fun p q => compare p q = .lt

instance (paths : List Path) : Decidable (IsIncreasing paths) :=
  inferInstanceAs (Decidable (paths.Pairwise fun p q => compare p q = .lt))

/-- **Putting different paths in order puts them in strict order.** -/
theorem isIncreasing_inOrder {paths : List Path} (h : paths.Pairwise fun p q => ¬ p ≈ q) :
    IsIncreasing (inOrder paths) := by
  have hsorted : (inOrder paths).Pairwise fun p q => (compare p q).isLE := by
    apply List.pairwise_mergeSort
    · intro p q r
      exact TransCmp.isLE_trans
    · intro p q
      have hswap : compare q p = (compare p q).swap := OrientedCmp.eq_swap
      rw [hswap]
      cases compare p q <;> rfl
  have hdifferent : (inOrder paths).Pairwise fun p q => ¬ p ≈ q :=
    (List.mergeSort_perm paths _).symm.pairwise h fun hpq hqp => hpq (Path.equiv_symm hqp)
  refine (hsorted.and hdifferent).imp ?_
  rintro p q ⟨hle, hne⟩
  rw [← Path.compare_eq_iff] at hne
  cases hcompare : compare p q with
  | lt => rfl
  | eq => exact absurd hcompare hne
  | gt => rw [hcompare] at hle; cases hle

/-- **Lists in strict order with the same members are equal.** -/
theorem IsIncreasing.ext {paths paths' : List Path} (h : IsIncreasing paths)
    (h' : IsIncreasing paths') (hmem : ∀ p, p ∈ paths ↔ p ∈ paths') : paths = paths' := by
  have hirrefl : Std.Irrefl fun p q : Path => compare p q = .lt :=
    ⟨fun p => by simp⟩
  have hantisymm : Std.Antisymm fun p q : Path => compare p q = .lt :=
    ⟨fun p q hpq hqp => absurd hqp (OrientedCmp.not_lt_of_lt hpq)⟩
  exact h.eq_of_mem_iff h' hmem

/-- Paths that stand in strict order already come out as they are. -/
theorem inOrder_eq_of_perm {paths ordered : List Path} (hperm : ordered.Perm paths)
    (h : IsIncreasing ordered) : inOrder paths = ordered := by
  have hdifferent : paths.Pairwise fun p q => ¬ p ≈ q := by
    refine hperm.pairwise (h.imp ?_) fun hpq hqp => hpq (Path.equiv_symm hqp)
    intro p q hlt hpq
    rw [Path.compare_eq_iff.2 hpq] at hlt
    cases hlt
  refine (isIncreasing_inOrder hdifferent).ext h fun p => ?_
  rw [inOrder, List.mem_mergeSort, hperm.mem_iff]

/-! ### What a scan sees -/

/-- There is a regular file at a place below the root, and no directory on the way to it is left
out. -/
def IsSeen (root outDir : Path) (tree : Node) (place : List String) : Prop :=
  tree.HasFile place ∧
    ∀ front back, place = front ++ back → front ≠ [] → back ≠ [] → ¬ IsLeftOut root outDir front

/-- The set consists of the files that are seen, by their names, each list in strict order. -/
structure IsExact (found : SourceSet) (root outDir : Path) (tree : Node) : Prop where
  mem_manifests_iff (p : Path) : p ∈ found.manifests ↔
    ∃ above, IsSeen root outDir tree (above ++ ["package.json"]) ∧
      p = placePath (above ++ ["package.json"])
  mem_sources_iff (p : Path) : p ∈ found.sources ↔
    ∃ above name, IsSeen root outDir tree (above ++ [name]) ∧ name ≠ "package.json" ∧
      (∃ stem, HasScriptStem name stem) ∧ p = placePath (above ++ [name])
  isIncreasing_manifests : IsIncreasing found.manifests
  isIncreasing_sources : IsIncreasing found.sources
  disjoint : ∀ p ∈ found.manifests, ∀ q ∈ found.sources, ¬ p ≈ q

section Seen

variable {root outDir : Path} {tree tree' : Node} {found found' : SourceSet}
  {place outPlace : List String}

/-- The listing that a scan asks for. -/
def listed (root outDir : Path) (tree : Node) : Listing :=
  tree.listing (fun place => !isPruned root outDir.normalize place) []

/-- **The places in the listing are those of the files that are seen.** -/
theorem mem_filePlaces_listed (h : tree.WellNamed) :
    place ∈ filePlaces [] (listed root outDir tree) ↔ IsSeen root outDir tree place := by
  have hiff : ∀ {front back}, tree.HasFile (front ++ back) → front ≠ [] →
      ((!isPruned root outDir.normalize front) ↔ ¬ IsLeftOut root outDir front) := by
    intro front back hfile hfront
    have hproper : ∀ s ∈ front, Component.IsProperName s :=
      fun s hs => h.isProperName hfile s (List.mem_append_left _ hs)
    rw [← isPruned_iff hproper hfront, Bool.not_eq_true']
    exact Bool.eq_false_iff
  rw [listed, mem_filePlaces_listing h]
  constructor
  · rintro ⟨place, rfl, hfile, hreached⟩
    refine ⟨hfile, ?_⟩
    rintro front back rfl hfront hback
    exact (hiff hfile hfront).1 (hreached front back rfl hfront hback)
  · rintro ⟨hfile, hway⟩
    refine ⟨place, rfl, hfile, ?_⟩
    rintro front back rfl hfront hback
    exact (hiff hfile hfront).2 (hway front back rfl hfront hback)

/-- Below a directory every file that is seen has a name. -/
theorem IsSeen.exists_name (h : IsSeen root outDir tree place) (hdirectory : tree.isDirectory) :
    ∃ above name, place = above ++ [name] := by
  have hne := h.1.isDirectory_iff.1 hdirectory
  exact ⟨place.dropLast, place.getLast hne, (List.dropLast_append_getLast hne).symm⟩

theorem nameAt_append (root : Path) (above : List String) (name : String) :
    nameAt root (above ++ [name]) = name := by
  simp [nameAt]

theorem manifests_ofListing (root : Path) (listing : Listing) :
    (ofListing root listing).manifests = inOrder
      (((filePlaces [] listing).filter fun place => nameAt root place = manifestName).map
        placePath) := by
  rw [ofListing, List.partition_eq_filter_filter]

theorem sources_ofListing (root : Path) (listing : Listing) :
    (ofListing root listing).sources = inOrder
      ((((filePlaces [] listing).filter fun place => nameAt root place ≠ manifestName).map
        placePath).filter Path.isScript) := by
  rw [ofListing, List.partition_eq_filter_filter]
  simp [Function.comp_def]

theorem mem_manifests_ofListing (h : tree.WellNamed) (hdirectory : tree.isDirectory) {p : Path} :
    p ∈ (ofListing root (listed root outDir tree)).manifests ↔
      ∃ above, IsSeen root outDir tree (above ++ ["package.json"]) ∧
        p = placePath (above ++ ["package.json"]) := by
  rw [manifests_ofListing, inOrder, List.mem_mergeSort, List.mem_map]
  simp only [List.mem_filter, mem_filePlaces_listed h, decide_eq_true_eq]
  constructor
  · rintro ⟨place, ⟨hseen, hmanifest⟩, rfl⟩
    obtain ⟨above, name, rfl⟩ := hseen.exists_name hdirectory
    rw [nameAt_append] at hmanifest
    subst hmanifest
    exact ⟨above, hseen, rfl⟩
  · rintro ⟨above, hseen, rfl⟩
    exact ⟨_, ⟨hseen, nameAt_append root above _⟩, rfl⟩

theorem mem_sources_ofListing (h : tree.WellNamed) (hdirectory : tree.isDirectory) {p : Path} :
    p ∈ (ofListing root (listed root outDir tree)).sources ↔
      ∃ above name, IsSeen root outDir tree (above ++ [name]) ∧ name ≠ "package.json" ∧
        (∃ stem, HasScriptStem name stem) ∧ p = placePath (above ++ [name]) := by
  rw [sources_ofListing, inOrder, List.mem_mergeSort, List.mem_filter, List.mem_map]
  simp only [List.mem_filter, mem_filePlaces_listed h, decide_eq_true_eq]
  constructor
  · rintro ⟨⟨place, ⟨hseen, hother⟩, rfl⟩, hscript⟩
    obtain ⟨above, name, rfl⟩ := hseen.exists_name hdirectory
    rw [nameAt_append] at hother
    exact ⟨above, name, hseen, hother, (isScript_placePath (h.isProperName hseen.1)).1 hscript, rfl⟩
  · rintro ⟨above, name, hseen, hother, hscript, rfl⟩
    refine ⟨⟨_, ⟨hseen, ?_⟩, rfl⟩, (isScript_placePath (h.isProperName hseen.1)).2 hscript⟩
    rwa [nameAt_append]

/-- The paths in a listing are different from each other. -/
theorem pairwise_placePath_listed (h : tree.WellNamed) :
    ((filePlaces [] (listed root outDir tree)).map placePath).Pairwise fun p q => ¬ p ≈ q := by
  rw [List.pairwise_map]
  refine (nodup_filePlaces_listing h).imp_of_mem ?_
  intro place place' hplace hplace' hne hequiv
  have hseen : IsSeen root outDir tree place := (mem_filePlaces_listed h).1 hplace
  have hseen' : IsSeen root outDir tree place' := (mem_filePlaces_listed h).1 hplace'
  exact hne (eq_of_placePath_equiv (h.isProperName hseen.1) (h.isProperName hseen'.1) hequiv)

/-- **The set of a listing holds what is seen of the tree.** -/
theorem isExact_ofListing (h : tree.WellNamed) (hdirectory : tree.isDirectory)
    (root outDir : Path) :
    (ofListing root (listed root outDir tree)).IsExact root outDir tree where
  mem_manifests_iff _ := mem_manifests_ofListing h hdirectory
  mem_sources_iff _ := mem_sources_ofListing h hdirectory
  isIncreasing_manifests := by
    rw [manifests_ofListing]
    exact isIncreasing_inOrder
      ((pairwise_placePath_listed h).sublist (List.filter_sublist.map placePath))
  isIncreasing_sources := by
    rw [sources_ofListing]
    exact isIncreasing_inOrder ((pairwise_placePath_listed h).sublist
      (List.filter_sublist.trans (List.filter_sublist.map placePath)))
  disjoint := by
    intro p hp q hq hequiv
    obtain ⟨above, hseen, rfl⟩ := (mem_manifests_ofListing h hdirectory).1 hp
    obtain ⟨above', name, hseen', hother, -, rfl⟩ := (mem_sources_ofListing h hdirectory).1 hq
    have hplace := eq_of_placePath_equiv (h.isProperName hseen.1) (h.isProperName hseen'.1) hequiv
    -- the last names would have to be the same
    obtain ⟨-, hname⟩ := List.append_inj' hplace rfl
    exact hother (List.cons.inj hname).1.symm

/-- **What is seen determines the set.** -/
theorem IsExact.unique (h : found.IsExact root outDir tree) (h' : found'.IsExact root outDir tree')
    (hseen : ∀ place, IsSeen root outDir tree place ↔ IsSeen root outDir tree' place) :
    found = found' := by
  have hmanifests : found.manifests = found'.manifests := by
    refine h.isIncreasing_manifests.ext h'.isIncreasing_manifests fun p => ?_
    rw [h.mem_manifests_iff, h'.mem_manifests_iff]
    simp only [hseen]
  have hsources : found.sources = found'.sources := by
    refine h.isIncreasing_sources.ext h'.isIncreasing_sources fun p => ?_
    rw [h.mem_sources_iff, h'.mem_sources_iff]
    simp only [hseen]
  exact SourceSet.ext hmanifests hsources

/-- The trees have the same files but below a place. -/
def DifferOnlyBelow (place : List String) (tree tree' : Node) : Prop :=
  ∀ other, (∃ below, below ≠ [] ∧ other = place ++ below) ∨
    (tree.HasFile other ↔ tree'.HasFile other)

/-- **What is below the output directory is not seen.** -/
theorem DifferOnlyBelow.isSeen_iff (h : DifferOnlyBelow outPlace tree tree') (hne : outPlace ≠ [])
    (hout : outDir.normalize.components = outPlace.map .name) :
    IsSeen root outDir tree place ↔ IsSeen root outDir tree' place := by
  rcases h place with ⟨below, hbelow, rfl⟩ | hiff
  · have hleftOut : IsLeftOut root outDir outPlace := by
      refine .inr ⟨fun hempty => hne ?_, .inl hout⟩
      rw [Path.components_of_text_eq_empty hempty] at hout
      exact List.map_eq_nil_iff.1 hout.symm
    constructor
    · rintro ⟨-, hway⟩
      exact absurd hleftOut (hway outPlace below rfl hne hbelow)
    · rintro ⟨-, hway⟩
      exact absurd hleftOut (hway outPlace below rfl hne hbelow)
  · rw [IsSeen, IsSeen, hiff]

end Seen

end SourceSet

namespace Script

open SourceSet

variable {root : Path} {d : Disk} {tree : Node}

/-- A scan reads the listing of the tree at the root, and changes nothing. -/
theorem run_scan (h : d.node root = .ok tree) (hdirectory : tree.isDirectory) (outDir : Path) :
    (scan root outDir).run d = (.ok (ofListing root (listed root outDir tree)), d) := by
  have hlist : d.list root (fun place => !isPruned root outDir.normalize place) =
      .ok (listed root outDir tree) := Disk.list_of_node h hdirectory _
  simp only [scan, list, ask, bind, andThen, run, Call.run, hlist]
  rfl

/-- **A scan of a directory finds exactly the manifests and scripts that no left-out directory
hides**, in strict order.  Where the output directory folds to one name or more, as a path of names
does, it makes no difference what is below it. -/
theorem scan_isExact (root outDir : Path) (d : Disk) (tree : Node) (htree : d.node root = .ok tree)
    (hdirectory : tree.isDirectory) (hnames : tree.WellNamed) :
    ∃ found, (scan root outDir).run d = (.ok found, d) ∧ found.IsExact root outDir tree ∧
      ∀ (outPlace : List String) (d' : Disk) (tree' : Node), outPlace ≠ [] →
        outDir.normalize.components = outPlace.map .name → d'.node root = .ok tree' →
        tree'.isDirectory → tree'.WellNamed → DifferOnlyBelow outPlace tree tree' →
        (scan root outDir).run d' = (.ok found, d') := by
  refine ⟨_, run_scan htree hdirectory outDir, isExact_ofListing hnames hdirectory root outDir, ?_⟩
  intro outPlace d' tree' hne hout htree' hdirectory' hnames' hdiffer
  have hexact := isExact_ofListing hnames hdirectory root outDir
  have hexact' := isExact_ofListing hnames' hdirectory' root outDir
  rw [run_scan htree' hdirectory' outDir,
    hexact.unique hexact' fun _ => hdiffer.isSeen_iff hne hout]

/-- A directory of empty files. -/
def emptyFiles (names : List String) : Node :=
  .directory (names.map fun name => (name, .file [] 0))

/-- A project with an output directory, whose files are given. -/
def project (built : List String) : Node :=
  .directory [
    ("_site", emptyFiles built),
    ("src-x", emptyFiles ["b.mjs"]),
    ("src", emptyFiles ["package.json", "style.css", "a.ts"]),
    (".eslintrc.js", .file [] 0),
    (".cache", emptyFiles ["c.js"]),
    ("node_modules", emptyFiles ["package.json"]),
    ("latest", .link "src")]

/-- A disk with a project, and a link to it. -/
def projectDisk (built : List String) : Disk where
  top := .directory [("app", project built), ("current", .link "app")]

theorem node_projectDisk (built : List String) :
    (projectDisk built).node ⟨"current"⟩ = .ok (project built) := by
  have hlimit : ¬ Disk.nameLimit < "current".utf8ByteSize ∧
      ¬ Disk.nameLimit < "app".utf8ByteSize := by
    decide
  have hsteps : Disk.steps "current" = ["current"] ∧ Disk.steps "app" = ["app"] := by
    decide +kernel
  refine Disk.node_eq_ok_iff.2 ⟨rfl, ["app"], ?_⟩
  show Disk.walk (projectDisk built).top true Disk.linkLimit [] (Disk.steps "current") = _
  simp [Disk.walk, projectDisk, project, Node.at?, Node.child?, Node.entryIn?, hlimit, hsteps,
    Disk.linkLimit]

theorem wellNamed_emptyFiles {names : List String} (hdistinct : names.Nodup)
    (hproper : ∀ name ∈ names, Component.IsProperName name) : (emptyFiles names).WellNamed := by
  have hnames : (names.map fun name => (name, Node.file [] 0)).map (·.1) = names := by
    rw [List.map_map]
    exact List.map_id names
  refine .directory (by rwa [hnames]) (by rwa [hnames]) ?_
  intro e he
  obtain ⟨name, -, rfl⟩ := List.mem_map.1 he
  exact .file [] 0

theorem wellNamed_project {built : List String} (h : (emptyFiles built).WellNamed) :
    (project built).WellNamed := by
  refine .directory (by simp) ?_ ?_
  · simp only [List.map_cons, List.map_nil]
    decide +kernel
  · simp only [List.forall_mem_cons, List.not_mem_nil, false_implies, implies_true, and_true]
    refine ⟨h, ?_, ?_, .file [] 0, ?_, ?_, .link _⟩
    all_goals exact wellNamed_emptyFiles (by decide) (by decide +kernel)

theorem differOnlyBelow_project (built built' : List String) :
    DifferOnlyBelow ["_site"] (project built) (project built') := by
  intro place
  cases place with
  | nil => exact .inr (by simp [Node.HasFile, Node.at?, project])
  | cons name rest =>
    by_cases hname : name = "_site"
    · subst hname
      by_cases hrest : rest = []
      · subst hrest
        exact .inr (by simp [Node.HasFile, Node.at?, Node.child?, Node.entryIn?, project, emptyFiles])
      · exact .inl ⟨rest, hrest, rfl⟩
    · right
      have hskip : ∀ child rest, Node.entryIn? name (("_site", child) :: rest) =
          Node.entryIn? name rest := fun _ _ => if_neg (Ne.symm hname)
      have hchild : (project built).child? name = (project built').child? name :=
        (hskip _ _).trans (hskip _ _).symm
      simp only [Node.HasFile, Node.at?, hchild]

/-- Before and after a build the same files are found through the link, in the order of their
components and not of their texts. -/
theorem scan_isExact_project :
    let found : SourceSet := {
      manifests := [⟨"src/package.json"⟩]
      sources := [⟨".eslintrc.js"⟩, ⟨"src/a.ts"⟩, ⟨"src-x/b.mjs"⟩] }
    found.IsExact ⟨"current"⟩ ⟨"./_site"⟩ (project []) ∧
      ∀ built ∈ [[], ["a.js", "package.json"]],
        (scan ⟨"current"⟩ ⟨"./_site"⟩).run (projectDisk built) = (.ok found, projectDisk built) := by
  intro found
  have hnames : ∀ built ∈ [[], ["a.js", "package.json"]], (project built).WellNamed := by
    simp only [List.forall_mem_cons, List.not_mem_nil, false_implies, implies_true, and_true]
    constructor
    all_goals exact wellNamed_project (wellNamed_emptyFiles (by decide) (by decide +kernel))
  have hplaces : filePlaces [] (listed ⟨"current"⟩ ⟨"./_site"⟩ (project [])) =
      [["src-x", "b.mjs"], ["src", "package.json"], ["src", "style.css"], ["src", "a.ts"],
        [".eslintrc.js"]] := by
    decide +kernel
  obtain ⟨found', hrun, hexact, hsame⟩ := scan_isExact ⟨"current"⟩ ⟨"./_site"⟩ (projectDisk [])
    (project []) (node_projectDisk []) rfl (hnames [] List.mem_cons_self)
  have hfound : found' = found := by
    rw [run_scan (node_projectDisk []) rfl] at hrun
    rw [← Except.ok.inj (Prod.mk.inj hrun).1]
    apply SourceSet.ext
    · rw [manifests_ofListing, hplaces]
      exact inOrder_eq_of_perm (by decide +kernel) (by decide +kernel)
    · rw [sources_ofListing, hplaces]
      exact inOrder_eq_of_perm (by decide +kernel) (by decide +kernel)
  subst hfound
  refine ⟨hexact, fun built hbuilt => ?_⟩
  exact hsame ["_site"] (projectDisk built) (project built) (by decide) (by decide +kernel)
    (node_projectDisk built) rfl (hnames built hbuilt) (differOnlyBelow_project [] built)

end Script

end PackageRouting
