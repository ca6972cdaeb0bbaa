/-
PackageRouting/Proofs/Exports/ModulePackage.lean

What a module package does with targets that have no condition of their own.

A classic package has them under `default`, and whether those are bundled is up
to the configuration.  A module package has them under `import`, and has nothing
under `default`, so that the configuration does not matter for it.

Every manifest but one kind says the same as some object of subpaths, whatever
its type (`exists_subpaths`), and an object of subpaths is read condition by
condition.  The exception is a single path as `exports` without an entry for
scripts: its target stays under `default` in a module package too
(`Manifest.HasLonePath`).

Main result: `modulePackages_default`.
-/
import PackageRouting.Proofs.Exports.Resolution
import PackageRouting.Proofs.Partition
import PackageRouting.Proofs.Path.Normal

namespace PackageRouting

open ExportsTable (targetAt? add addAll)

/-! ### Targets by condition -/

/-- How a module package reads what a classic one has under each condition: what was under
`default` is under `import`, and of two targets that meet there one stays. -/
structure ImportsDefaults (read classic : Condition → Option Target) : Prop where
  importModule : read .importModule = (classic .importModule).or (classic .default) ∨
    read .importModule = (classic .default).or (classic .importModule)
  default : read .default = none
  other : ∀ c, c ≠ .importModule → c ≠ .default → read c = classic c

namespace ImportsDefaults

variable {read classic read' classic' : Condition → Option Target}

theorem empty : ImportsDefaults (fun _ => none) fun _ => none where
  importModule := .inl rfl
  default := rfl
  other _ _ _ := rfl

/-- Of targets that are searched one after another each may be read by itself. -/
theorem or (h : ImportsDefaults read classic) (h' : ImportsDefaults read' classic') :
    ImportsDefaults (fun c => (read c).or (read' c)) fun c => (classic c).or (classic' c) where
  importModule := by
    -- the first search settles it unless it finds nothing under either condition
    rcases h.importModule with h | h <;> rcases h'.importModule with h' | h' <;> rw [h, h'] <;>
      cases classic .importModule <;> cases classic .default <;> simp
  default := by rw [h.default, h'.default]; rfl
  other c hne hne' := by rw [h.other c hne hne', h'.other c hne hne']

theorem findSome? {α : Type} {l : List α} {read classic : α → Condition → Option Target}
    (h : ∀ x, ImportsDefaults (read x) (classic x)) :
    ImportsDefaults (fun c => l.findSome? (read · c)) fun c => l.findSome? (classic · c) := by
  induction l with
  | nil => exact empty
  | cons x rest ih =>
    simp only [findSome?_cons_eq_or]
    exact (h x).or ih

theorem single (c : Condition) (target : Target) :
    ImportsDefaults (fun c' => if c' = c.remapDefault .module then some target else none)
      fun c' => if c' = c then some target else none := by
  by_cases hc : c = .default
  · subst hc
    refine ⟨.inl rfl, rfl, fun c' hne hne' => ?_⟩
    rw [if_neg hne']
    exact if_neg hne
  · have hsame : c.remapDefault .module = c := by
      cases c <;> first | rfl | exact absurd rfl hc
    rw [hsame]
    refine ⟨.inl ?_, if_neg (Ne.symm hc), fun _ _ _ => rfl⟩
    rw [if_neg (Ne.symm hc), Option.or_none]

end ImportsDefaults

/-! ### Tables -/

namespace ExportsTable

/-- Some destination has a target under a condition. -/
def HasTarget (t : ExportsTable) (c : Condition) : Prop :=
  (∃ d target, targetAt? t.exact d c = some target) ∨
    ∃ p target, targetAt? t.patterns p c = some target

/-- The table that a module package has in place of a classic one's. -/
structure IsModuleReading (t classic : ExportsTable) : Prop where
  exact : ∀ d, ImportsDefaults (targetAt? t.exact d) (targetAt? classic.exact d)
  patterns : ∀ p, ImportsDefaults (targetAt? t.patterns p) (targetAt? classic.patterns p)

theorem not_hasTarget_iff {t : ExportsTable} {c : Condition} :
    ¬ t.HasTarget c ↔
      (∀ d, targetAt? t.exact d c = none) ∧ ∀ p, targetAt? t.patterns p c = none := by
  simp only [HasTarget, not_or, not_exists, Option.eq_none_iff_forall_ne_some, ne_eq]

theorem IsModuleReading.not_hasTarget_default {t classic : ExportsTable}
    (h : t.IsModuleReading classic) : ¬ t.HasTarget .default :=
  not_hasTarget_iff.2 ⟨fun d => (h.exact d).default, fun p => (h.patterns p).default⟩

end ExportsTable

/-! ### Entries -/

namespace Resolution

variable {root : Path} {members : List (String × Json)}

/-- Something given under a condition, as a module package means the condition. -/
def asModule {α : Type} (t : Condition × α) : Condition × α := (t.1.remapDefault .module, t.2)

theorem importsDefaults_ofList (targets : List (Condition × Target)) :
    ImportsDefaults (Entry.ofList (targets.map asModule)).find? (Entry.ofList targets).find? := by
  have hread : (Entry.ofList (targets.map asModule)).find? = fun c =>
      targets.findSome? fun t => if c = t.1.remapDefault .module then some t.2 else none := by
    funext c
    rw [Entry.find?_ofList, List.findSome?_map]
    rfl
  rw [hread, funext (Entry.find?_ofList targets)]
  exact .findSome? fun t => .single t.1 t.2

theorem routes_module (value : Json) :
    routes .module value = (routes .classic value).map asModule := by
  have hsame : ∀ c : Condition, c.remapDefault .classic = c := by
    intro c
    cases c <;> rfl
  rw [routes_eq, routes_eq, List.map_filterMap]
  simp only [Option.map_map, hsame]
  rfl

theorem importsDefaults_exactEntry (value : Json) :
    ImportsDefaults (exactEntry root (routes .module value)).find?
      (exactEntry root (routes .classic value)).find? := by
  have hentry : exactEntry root (routes .module value) = Entry.ofList
      (((routes .classic value).map fun t => (t.1, exactTarget root t.2)).map asModule) := by
    rw [exactEntry, routes_module, List.map_map, List.map_map]
    rfl
  rw [hentry]
  exact importsDefaults_ofList _

theorem importsDefaults_patternEntry (value : Json) :
    ImportsDefaults (patternEntry root (routes .module value)).find?
      (patternEntry root (routes .classic value)).find? := by
  have hentry : patternEntry root (routes .module value) = Entry.ofList
      (((routes .classic value).filterMap fun t =>
        (patternTarget root t.2).toOption.map fun target => (t.1, target)).map asModule) := by
    rw [patternEntry, routes_module, List.filterMap_map, List.map_filterMap]
    simp only [Option.map_map]
    rfl
  rw [hentry]
  exact importsDefaults_ofList _

/-! ### Objects of subpaths -/

/-- Entries that are read one by one make a table that is read as a whole. -/
theorem importsDefaults_addAll {κ : Type} [Ord κ] [Std.TransOrd κ] [Std.LawfulEqOrd κ]
    [DecidableEq κ] (part : ModuleType → String × Json → Option (κ × Entry)) {k : κ}
    (h : ∀ m, ImportsDefaults
      (fun c => (part .module m).bind fun x => if k = x.1 then x.2.find? c else none)
      fun c => (part .classic m).bind fun x => if k = x.1 then x.2.find? c else none) :
    ImportsDefaults (targetAt? (addAll .empty (members.filterMap (part .module))) k)
      (targetAt? (addAll .empty (members.filterMap (part .classic))) k) := by
  have hread : ∀ moduleType,
      targetAt? (addAll .empty (members.filterMap (part moduleType))) k = fun c =>
        members.findSome? fun m => (part moduleType m).bind fun x =>
          if k = x.1 then x.2.find? c else none := by
    intro moduleType
    funext c
    rw [ExportsTable.targetAt?_addAll, findSome?_filterMap]
    exact Option.none_or
  rw [hread, hread]
  exact .findSome? h

/-- **An object of subpaths in a module package** says the same as in a classic one, with `default`
read as `import`. -/
theorem isModuleReading_ofMembers (h : ∃ m ∈ members, isSubpath m.1) :
    (ofMembers .module root members).table.IsModuleReading
      (ofMembers .classic root members).table := by
  rw [table_ofMembers h, table_ofMembers h]
  constructor
  · intro d
    refine importsDefaults_addAll (exactPart? · root) fun m => ?_
    simp only [exactPart?]
    by_cases hkind : isSubpath m.1 ∧ ¬ isGlob m.1
    · simp only [if_pos hkind, Option.bind_some]
      by_cases hd : d = m.1
      · simpa only [if_pos hd] using importsDefaults_exactEntry m.2
      · simpa only [if_neg hd] using .empty
    · simpa only [if_neg hkind] using .empty
  · intro p
    refine importsDefaults_addAll (patternPart? · root) fun m => ?_
    simp only [patternPart?]
    by_cases hsub : isSubpath m.1
    · simp only [if_pos hsub]
      cases (Pattern.parse m.1).toOption with
      | none => exact .empty
      | some q =>
        by_cases hp : p = q
        · simpa [hp] using importsDefaults_patternEntry m.2
        · simpa [hp] using .empty
    · simpa only [if_neg hsub] using .empty

end Resolution

/-! ### Manifests -/

/-- The manifest has a single path as `exports`, and no entry for scripts beside it. -/
def Manifest.HasLonePath (m : Manifest) : Prop :=
  (∃ path, m.exports = some (.string path)) ∧ m.scriptEntry = none

namespace Resolution

variable {root : Path} {m : Manifest}

/-- Every object says the same as one of subpaths. -/
theorem exists_subpaths_ofMembers (root : Path) (members : List (String × Json)) :
    ∃ members', (∃ x ∈ members', isSubpath x.1) ∧ ∀ moduleType,
      ofMembers moduleType root members = ofMembers moduleType root members' := by
  by_cases hsub : ∃ x ∈ members, isSubpath x.1
  · exact ⟨members, hsub, fun _ => rfl⟩
  · have hconditions : ∀ x ∈ members, ¬ isSubpath x.1 := fun x hx h => hsub ⟨x, hx, h⟩
    have hroot : isSubpath "." = true := by decide
    exact ⟨_, ⟨_, List.mem_singleton_self _, hroot⟩, fun _ => ofMembers_of_conditions hconditions⟩

/-- A target without a condition is one of the root's. -/
theorem ofMembers_root_string (moduleType : ModuleType) (path : String) :
    ofMembers moduleType root [(".", .string path)] =
      atRoot (exactEntry root [(moduleType.defaultCondition, path)]) := by
  have hsub : isSubpath "." = true := by decide
  have hglob : isGlob "." = false := by decide
  simp [ofMembers, addDestination, atRoot, hsub, hglob, routes, targetText?]

/-- Targets for `import` and `script` alone are the root's. -/
theorem ofMembers_import_script (moduleType : ModuleType) (path script : String) :
    ofMembers moduleType root [("import", .string path), ("script", .string script)] =
      atRoot (exactEntry root [(.importModule, path), (.script, script)]) := by
  have himport : isSubpath "import" = false := by decide
  have hscript : isSubpath "script" = false := by decide
  simp [ofMembers, himport, hscript, routes, targetText?, Condition.ofKey, Condition.remapDefault]

/-- **Every manifest without a lone path says the same as an object of subpaths**, whatever the type
of its package. -/
theorem exists_subpaths (root : Path) (h : ¬ m.HasLonePath) :
    ∃ members, (∃ x ∈ members, isSubpath x.1) ∧ ∀ moduleType,
      ofManifest { m with moduleType := moduleType } root = ofMembers moduleType root members := by
  suffices hobject : ∃ members, ∀ moduleType,
      ofManifest { m with moduleType := moduleType } root = ofMembers moduleType root members by
    obtain ⟨members, hsame⟩ := hobject
    obtain ⟨members', hsub, hsame'⟩ := exists_subpaths_ofMembers root members
    exact ⟨members', hsub, fun moduleType => (hsame moduleType).trans (hsame' moduleType)⟩
  -- each shape of `exports`, without and with an entry for scripts
  obtain ⟨_, _, _, main, browser, exports⟩ := m
  simp only [Manifest.HasLonePath, Manifest.scriptEntry] at h
  simp only [ofManifest, Manifest.scriptEntry]
  cases hscript : main <|> browser with
  | none =>
    cases exports with
    | none => exact ⟨[(".", .string "./index.js")], fun _ => (ofMembers_root_string ..).symm⟩
    | some value =>
      cases value with
      | string path => exact absurd ⟨⟨path, rfl⟩, hscript⟩ h
      | object members => exact ⟨members, fun _ => rfl⟩
      | _ => exact ⟨[], fun _ => rfl⟩
  | some script =>
    cases exports with
    | none => exact ⟨[(".", .string script)], fun _ => (ofMembers_root_string ..).symm⟩
    | some value =>
      cases value with
      | string path =>
        exact ⟨[("import", .string path), ("script", .string script)],
          fun _ => (ofMembers_import_script ..).symm⟩
      | object members => exact ⟨members, fun _ => rfl⟩
      | _ => exact ⟨[], fun _ => rfl⟩

/-- A lone path is read alike whatever the type of the package. -/
theorem ofManifest_of_hasLonePath (root : Path) (h : m.HasLonePath) :
    ∃ path, ∀ moduleType, ofManifest { m with moduleType := moduleType } root =
      atRoot (exactEntry root [(.default, path)]) := by
  obtain ⟨_, _, _, main, browser, exports⟩ := m
  obtain ⟨⟨path, rfl⟩, hscript⟩ := h
  simp only [Manifest.scriptEntry] at hscript
  exact ⟨path, fun _ => by simp only [ofManifest, Manifest.scriptEntry, hscript]⟩

/-- A lone path is the target of the root under `default`. -/
theorem exists_targetAt?_of_hasLonePath (root : Path) (h : m.HasLonePath) :
    ∃ p, targetAt? (ofManifest m root).table.exact "." .default = some (.path p) ∧
      p.normalize = p := by
  obtain ⟨path, hsame⟩ := ofManifest_of_hasLonePath root h
  have htable : ofManifest m root = _ := hsame m.moduleType
  refine ⟨root.joinNormalized path, ?_, Path.normalize_normalize _⟩
  rw [htable, atRoot, ExportsTable.addExact_eq, ExportsTable.targetAt?_add, if_pos rfl, exactEntry,
    Entry.find?_ofList]
  rfl

/-- **A module package has something under `default` only for a lone path**, and then it is read as
if it were a classic one. -/
theorem table_module (h : m.moduleType = .module) :
    let table := (ofManifest m root).table
    let classic := (ofManifest { m with moduleType := .classic } root).table
    (table.HasTarget .default ↔ m.HasLonePath) ∧ (m.HasLonePath → table = classic) ∧
      (¬ m.HasLonePath → table.IsModuleReading classic) := by
  intro table classic
  have hmodule : table = (ofManifest { m with moduleType := .module } root).table := by
    rw [← h]
  have hlone : m.HasLonePath → table = classic := by
    intro hlone
    obtain ⟨path, hsame⟩ := ofManifest_of_hasLonePath root hlone
    rw [hmodule, hsame, ← hsame]
  have hreading : ¬ m.HasLonePath → table.IsModuleReading classic := by
    intro hlone
    obtain ⟨members, hsub, hsame⟩ := exists_subpaths root hlone
    show table.IsModuleReading (ofManifest { m with moduleType := .classic } root).table
    rw [hmodule, hsame, hsame]
    exact isModuleReading_ofMembers hsub
  refine ⟨⟨fun htarget => ?_, fun hlone => ?_⟩, hlone, hreading⟩
  · by_contra hlone
    exact (hreading hlone).not_hasTarget_default htarget
  · obtain ⟨p, htarget, -⟩ := exists_targetAt?_of_hasLonePath root hlone
    exact .inl ⟨_, _, htarget⟩

end Resolution

/-! ### Partitions -/

section Fallback

variable {c : Condition} {t : ExportsTable} {tables : List ExportsTable} {path : Path}
  {fallback fallback' : Option DefaultDelivery}

theorem deliveryFor_eq_of_ne_default (h : c ≠ .default) :
    deliveryFor fallback c = deliveryFor fallback' c := by
  cases c <;> first | rfl | exact absurd rfl h

namespace ExportsTable

theorem entryClaims_eq_of_find? {claim? : Target → Option String} {e : Entry}
    (h : e.find? .default = none) :
    entryClaims fallback claim? e = entryClaims fallback' claim? e := by
  refine List.filterMap_congr fun x hx => ?_
  have hne : x.1 ≠ .default := by
    intro hdefault
    have hfind : e.find? x.1 = some x.2 := SortedMap.mem_entries_iff.1 hx
    rw [hdefault, h] at hfind
    cases hfind
  have hdelivery : deliveryFor fallback x.1 = deliveryFor fallback' x.1 :=
    deliveryFor_eq_of_ne_default hne
  simp only [hdelivery]

theorem find?_eq_none_of_targetAt? {κ : Type} [Ord κ] [Std.TransOrd κ] [Std.LawfulEqOrd κ]
    {m : SortedMap κ Entry} (h : ∀ k, targetAt? m k c = none) {x : κ × Entry}
    (hx : x ∈ m.entries) : x.2.find? c = none := by
  rw [← h x.1, targetAt?, SortedMap.mem_entries_iff.1 hx, Option.bind_some]

theorem exactClaims_eq_of_not_hasTarget (h : ¬ t.HasTarget .default) :
    t.exactClaims fallback path = t.exactClaims fallback' path :=
  List.flatMap_congr fun _ hx =>
    entryClaims_eq_of_find? (find?_eq_none_of_targetAt? (not_hasTarget_iff.1 h).1 hx)

theorem patternClaims_eq_of_not_hasTarget (h : ¬ t.HasTarget .default) :
    t.patternClaims fallback path = t.patternClaims fallback' path :=
  List.flatMap_congr fun _ hx =>
    entryClaims_eq_of_find? (find?_eq_none_of_targetAt? (not_hasTarget_iff.1 h).2 hx)

end ExportsTable

/-- **Without anything under `default` the configuration does not change the claims.** -/
theorem claims_eq_of_not_hasTarget (h : ∀ t ∈ tables, ¬ t.HasTarget .default) :
    claims fallback tables path = claims fallback' tables path := by
  have hexact : (tables.map fun t => t.exactClaims fallback path) =
      tables.map fun t => t.exactClaims fallback' path :=
    List.map_congr_left fun t ht => ExportsTable.exactClaims_eq_of_not_hasTarget (h t ht)
  have hpatterns : (tables.map fun t => t.patternClaims fallback path) =
      tables.map fun t => t.patternClaims fallback' path :=
    List.map_congr_left fun t ht => ExportsTable.patternClaims_eq_of_not_hasTarget (h t ht)
  rw [claims, claims, hexact, hpatterns]

namespace Partition

variable {packages : List (String × Package)} {files : List SourceFile} {a : String × Package}
  {d : String} {i : Nat}

theorem ofPackages_eq_of_not_hasTarget
    (h : ∀ a ∈ packages, ¬ a.2.exports.HasTarget .default) :
    ofPackages fallback packages files = ofPackages fallback' packages files := by
  have htables : ∀ t ∈ tablesOf packages, ¬ t.HasTarget .default := by
    intro t ht
    obtain ⟨a, ha, rfl⟩ := List.mem_map.1 ht
    exact h a ha
  have hadd : addFile fallback (tablesOf packages) = addFile fallback' (tablesOf packages) := by
    funext p file
    simp only [addFile]
    rw [claims_eq_of_not_hasTarget htables]
  show files.foldl (addFile fallback (tablesOf packages)) _ =
    files.foldl (addFile fallback' (tablesOf packages)) _
  rw [hadd]

/-- A file that stands under `default` is delivered as the configuration says, or not at all. -/
theorem ofPackages_ne_of_default {delivery : DefaultDelivery} (hi : packages[i]? = some a)
    (htarget : targetAt? a.2.exports.exact d .default = some (.path path))
    (hnormal : path.normalize = path) :
    ofPackages none packages [⟨path, false⟩] ≠
      ofPackages (some delivery) packages [⟨path, false⟩] := by
  intro heq
  have hroute : Routes (some delivery) (tablesOf packages) i path.normalize d .default := by
    obtain ⟨e, he, htarget⟩ := Option.bind_eq_some_iff.1 htarget
    have hsame : path.normalize.sameModule path := by
      rw [hnormal, Path.sameModule, if_pos (Path.equiv_refl path)]
    refine ⟨.inr (.inr ⟨rfl, rfl⟩), a.2.exports, ?_, .inl ⟨e, path, he, htarget, hsame⟩⟩
    rw [tablesOf, List.getElem?_map, hi]
    rfl
  obtain ⟨b, hb⟩ : ∃ b, (ofPackages (some delivery) packages [⟨path, false⟩]).packages[i]? =
      some b := by
    rw [packages_ofPackages, hi]
    exact ⟨_, rfl⟩
  have hfirst : IsFirst (fun f : SourceFile =>
      Routes (some delivery) (tablesOf packages) i f.path.normalize d .default)
      [⟨path, false⟩] ⟨path, false⟩ :=
    isFirst_cons.2 (.inl ⟨hroute, rfl⟩)
  obtain ⟨name, hname⟩ := exists_outputName_of_routes hb hfirst.mem hroute
  have hdelivered : b.delivery? d .default = some name :=
    (delivery?_packages_eq_some_iff hb).2 ⟨_, hfirst, hname⟩
  -- without a configured way nothing is delivered under `default`
  rw [← heq] at hb
  obtain ⟨f, hfirst, -⟩ := (delivery?_packages_eq_some_iff hb).1 hdelivered
  rcases hfirst.prop.1 with h | h | ⟨-, h⟩
  · cases h
  · cases h
  · cases h

end Partition

end Fallback

/-- The package comes from the manifest of a module package. -/
def Package.IsOfModule (p : Package) : Prop :=
  ∃ m location, m.moduleType = .module ∧ (Package.ofManifest m location).1 = p

theorem Package.hasTarget_default_iff {m : Manifest} (h : m.moduleType = .module)
    (location : Path) :
    (Package.ofManifest m location).1.exports.HasTarget .default ↔ m.HasLonePath :=
  (Resolution.table_module h).1

/-- What stands under `default` in a module package is the target of a lone path. -/
theorem Package.IsOfModule.exists_target {p : Package} (h : p.IsOfModule)
    (hdefault : p.exports.HasTarget .default) :
    ∃ path, targetAt? p.exports.exact "." .default = some (.path path) ∧
      path.normalize = path := by
  obtain ⟨m, location, hmodule, rfl⟩ := h
  exact Resolution.exists_targetAt?_of_hasLonePath _ ((hasTarget_default_iff hmodule _).1 hdefault)

/-- **A module package has something under `default` only for a lone path.**  From every other
manifest a module package has the table of a classic one with what was under `default` under
`import`; a lone path is read as in a classic package.  Hence the partition of module packages does
not depend on how `default` is delivered, exactly if none of them has a lone path. -/
theorem modulePackages_default (m : Manifest) (root : Path) (h : m.moduleType = .module) :
    let table := (Resolution.ofManifest m root).table
    let classic := (Resolution.ofManifest { m with moduleType := .classic } root).table
    ((table.HasTarget .default ↔ m.HasLonePath) ∧ (m.HasLonePath → table = classic) ∧
      (¬ m.HasLonePath → table.IsModuleReading classic)) ∧
    ∀ (r : Registry) (policy : Policy), (∀ p ∈ r.eligible policy, p.IsOfModule) →
      ((∀ files fallback fallback', Partition.ofRegistry r files policy fallback =
          Partition.ofRegistry r files policy fallback') ↔
        ∀ a ∈ Partition.firstOfEachName (r.eligible policy), ¬ a.2.exports.HasTarget .default) := by
  refine ⟨Resolution.table_module h, fun r policy hmodule => ⟨?_, ?_⟩⟩
  · intro hsame a ha hdefault
    have heligible : a.2 ∈ r.eligible policy :=
      (Partition.sublist_firstOfEachName _).subset (List.mem_map_of_mem ha)
    obtain ⟨path, htarget, hnormal⟩ := (hmodule _ heligible).exists_target hdefault
    obtain ⟨i, hi⟩ := List.mem_iff_getElem?.1 ha
    exact Partition.ofPackages_ne_of_default hi htarget hnormal (hsame _ none (some .importModule))
  · intro hnone files fallback fallback'
    exact Partition.ofPackages_eq_of_not_hasTarget hnone

/-- A registry with the package of one manifest. -/
def registryOf (m : Manifest) : Registry where
  packages := .ofList
    [(⟨"ui/package.json"⟩, ⟨(Package.ofManifest m ⟨"ui/package.json"⟩).1, none⟩)]

theorem eq_of_mem_eligible_registryOf {m : Manifest} {policy : Policy} {p : Package}
    (h : p ∈ (registryOf m).eligible policy) :
    p = (Package.ofManifest m ⟨"ui/package.json"⟩).1 :=
  List.mem_singleton.1 (List.mem_of_mem_filter h)

theorem isOfModule_of_mem_eligible_registryOf {m : Manifest} {policy : Policy}
    (hmodule : m.moduleType = .module) : ∀ p ∈ (registryOf m).eligible policy, p.IsOfModule :=
  fun _ hp => ⟨m, _, hmodule, (eq_of_mem_eligible_registryOf hp).symm⟩

/-- A manifest with `default` at the root, and with a pattern that has no condition. -/
def sampleModule : Manifest where
  name := some "ui"
  moduleType := .module
  exports := some (.object [
    (".", .object [("default", .string "./a.js"), ("script", .string "./b.js")]),
    ("./*", .string "./src/*.js")])

/-- Its partition is the same whatever the configuration says about `default`. -/
theorem modulePackages_default_sample :
    sampleModule.moduleType = .module ∧ ¬ sampleModule.HasLonePath ∧
      (∀ p ∈ (registryOf sampleModule).eligible {}, p.IsOfModule) ∧
      (Resolution.ofManifest sampleModule ⟨"ui"⟩).table.IsModuleReading
        (Resolution.ofManifest { sampleModule with moduleType := .classic } ⟨"ui"⟩).table ∧
      ∀ files fallback fallback', Partition.ofRegistry (registryOf sampleModule) files {} fallback =
        Partition.ofRegistry (registryOf sampleModule) files {} fallback' := by
  have hlone : ¬ sampleModule.HasLonePath := by
    rintro ⟨⟨path, hpath⟩, -⟩
    cases hpath
  have hmodule : ∀ p ∈ (registryOf sampleModule).eligible {}, p.IsOfModule :=
    isOfModule_of_mem_eligible_registryOf rfl
  obtain ⟨⟨-, -, hreading⟩, hpartition⟩ := modulePackages_default sampleModule ⟨"ui"⟩ rfl
  refine ⟨rfl, hlone, hmodule, hreading hlone,
    (hpartition (registryOf sampleModule) {} hmodule).2 ?_⟩
  intro a ha hdefault
  have heligible : a.2 ∈ (registryOf sampleModule).eligible {} :=
    (Partition.sublist_firstOfEachName _).subset (List.mem_map_of_mem ha)
  rw [eq_of_mem_eligible_registryOf heligible] at hdefault
  exact hlone ((Package.hasTarget_default_iff rfl _).1 hdefault)

/-- A manifest with a lone path. -/
def sampleLonePath : Manifest where
  name := some "ui"
  moduleType := .module
  exports := some (.string "./x.js")

/-- **A lone path stays under `default` in a module package**, and its file goes where the
configuration says. -/
theorem not_forall_not_hasTarget_default :
    (¬ ∀ (m : Manifest) (root : Path), m.moduleType = .module →
      ¬ (Resolution.ofManifest m root).table.HasTarget .default) ∧
    ¬ ∀ (r : Registry) (policy : Policy), (∀ p ∈ r.eligible policy, p.IsOfModule) →
      ∀ files fallback fallback', Partition.ofRegistry r files policy fallback =
        Partition.ofRegistry r files policy fallback' := by
  constructor
  · intro h
    have htarget :
        targetAt? (Resolution.ofManifest sampleLonePath ⟨"ui"⟩).table.exact "." .default =
          some (.path ⟨"ui/x.js"⟩) := by
      decide +kernel
    exact h sampleLonePath ⟨"ui"⟩ rfl (.inl ⟨_, _, htarget⟩)
  · intro h
    let partition (fallback : Option DefaultDelivery) : Partition :=
      .ofRegistry (registryOf sampleLonePath) [⟨⟨"ui/x.js"⟩, false⟩] {} fallback
    have hdiffer : partition none ≠ partition (some .script) := by decide +kernel
    exact hdiffer (h _ _ (isOfModule_of_mem_eligible_registryOf rfl) _ _ _)

end PackageRouting
