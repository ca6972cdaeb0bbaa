/-
PackageRouting/Proofs/Package.lean

What a package owes to the spelling of its manifest's path: its directory, and
nothing else.

Targets are normal forms of joins, so a directory counts by its components
(`exactTarget_congr`, `patternTarget_congr`) and the routing table is the same
under every spelling.  Packages that differ in the spelling of their directory
alone are called the same.

Main result: `ofManifest_congr`.
-/
import PackageRouting.Package
import PackageRouting.Policy
import PackageRouting.Proofs.Path.Spelling

namespace PackageRouting

variable {root root' : Path}

namespace Resolution

theorem joinNormalized_congr (h : root ≈ root') (rel : Path) :
    root.joinNormalized rel = root'.joinNormalized rel :=
  Path.normalize_congr (Path.join_congr h rel)

/-- A target is seen from the directory as a path, however that is spelled. -/
theorem exactTarget_congr (h : root ≈ root') : exactTarget root = exactTarget root' := by
  funext text
  rw [exactTarget, exactTarget, joinNormalized_congr h]

/-- A wildcard target is taken, or refused, whatever the spelling of the directory. -/
theorem patternTarget_congr (h : root ≈ root') : patternTarget root = patternTarget root' := by
  have hrooted : ∀ p : Pattern, p.rooted root = p.rooted root' := by
    intro p
    rw [Pattern.rooted, Pattern.rooted, joinNormalized_congr h]
  funext text
  simp only [patternTarget, hrooted, exactTarget_congr h]

theorem exactEntry_congr (h : root ≈ root') : exactEntry root = exactEntry root' := by
  funext texts
  rw [exactEntry, exactEntry, exactTarget_congr h]

/-- A destination gets the same entries and errors. -/
theorem addDestination_congr (h : root ≈ root') (moduleType : ModuleType) :
    addDestination moduleType root = addDestination moduleType root' := by
  have hpattern : patternEntry root = patternEntry root' := by
    funext texts
    rw [patternEntry, patternEntry, patternTarget_congr h]
  have herrors : targetErrors root = targetErrors root' := by
    funext texts
    rw [targetErrors, targetErrors, patternTarget_congr h]
  funext r key value
  simp only [addDestination, exactEntry_congr h, hpattern, herrors]

/-- **The spelling of the directory does not show in the table.** -/
theorem ofManifest_congr (h : root ≈ root') (m : Manifest) :
    Resolution.ofManifest m root = Resolution.ofManifest m root' := by
  have hmembers : ∀ members, ofMembers m.moduleType root members =
      ofMembers m.moduleType root' members := by
    intro members
    rw [ofMembers, ofMembers, exactEntry_congr h, addDestination_congr h]
  simp only [Resolution.ofManifest, exactEntry_congr h, hmembers]

end Resolution

namespace Package

/-- The packages agree in everything but the spelling of their directories. -/
structure Same (p q : Package) : Prop where
  name : p.name = q.name
  isPrivate : p.isPrivate = q.isPrivate
  moduleType : p.moduleType = q.moduleType
  exports : p.exports = q.exports
  root : p.root ≈ q.root

variable {p q r : Package}

theorem Same.refl (p : Package) : p.Same p :=
  ⟨rfl, rfl, rfl, rfl, Path.equiv_refl p.root⟩

theorem Same.symm (h : p.Same q) : q.Same p :=
  ⟨h.name.symm, h.isPrivate.symm, h.moduleType.symm, h.exports.symm, Path.equiv_symm h.root⟩

theorem Same.trans (h : p.Same q) (h' : q.Same r) : p.Same r where
  name := h.name.trans h'.name
  isPrivate := h.isPrivate.trans h'.isPrivate
  moduleType := h.moduleType.trans h'.moduleType
  exports := h.exports.trans h'.exports
  root := Path.equiv_trans h.root h'.root

/-- There is the same package on both sides, or none. -/
abbrev SameAt : Option Package → Option Package → Prop := Option.Rel Same

/-- A place has on both sides what it has. -/
theorem sameAt_refl (o : Option Package) : SameAt o o := by
  cases o with
  | none => exact .none
  | some p => exact .some (Same.refl p)

theorem SameAt.symm {o o' : Option Package} (h : SameAt o o') : SameAt o' o := by
  cases h with
  | none => exact .none
  | some h => exact .some h.symm

theorem SameAt.trans {o o' o'' : Option Package} (h : SameAt o o') (h' : SameAt o' o'') :
    SameAt o o'' := by
  cases h with
  | none => exact h'
  | some h =>
    cases h' with
    | some h' => exact .some (h.trans h')

/-- A policy does not look at the directory. -/
theorem Same.admits_eq (h : p.Same q) (policy : Policy) : policy.admits p = policy.admits q := by
  rw [Policy.admits, Policy.admits, h.name, h.isPrivate]

/-- **A manifest comes to the same package under every spelling of its path**, with the same
patterns left out. -/
theorem ofManifest_congr {location location' : Path} (h : location ≈ location') (m : Manifest) :
    (Package.ofManifest m location).1.Same (Package.ofManifest m location').1 ∧
      (Package.ofManifest m location).2 = (Package.ofManifest m location').2 := by
  have hroot := Path.parent_congr h
  have htable := Resolution.ofManifest_congr hroot m
  simp only [Package.ofManifest, htable, and_true]
  exact ⟨rfl, rfl, rfl, rfl, hroot⟩

end Package

end PackageRouting
