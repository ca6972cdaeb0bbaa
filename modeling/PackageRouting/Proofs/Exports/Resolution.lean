/-
PackageRouting/Proofs/Exports/Resolution.lean

The table of an `exports` object, read off the document.

An object says, key by key and condition by condition, which values are targets
(`said`).  Of what it says for one destination and condition, the first that
makes a target counts (`IsFirstTarget`): a value without a text, and a text that
makes no target, leave the place to what follows.  Resolution goes through the
keys and merges the entry of each into the table, which comes to the same
(`isReferenceFor_ofMembers`).

Main result: `ofManifest_object`.
-/
import PackageRouting.Proofs.Bucket
import PackageRouting.Proofs.Exports.Table
import PackageRouting.Proofs.Exports.Target

namespace PackageRouting

/-! ### Searching -/

section FindSome

variable {α β γ : Type} {l : List α} {g : β → Option γ}

theorem findSome?_filterMap {f : α → Option β} :
    (l.filterMap f).findSome? g = l.findSome? fun a => (f a).bind g := by
  rw [← List.head?_filterMap, List.filterMap_filterMap, List.head?_filterMap]

theorem findSome?_flatMap {f : α → List β} :
    (l.flatMap f).findSome? g = l.findSome? fun a => (f a).findSome? g := by
  induction l with
  | nil => rfl
  | cons a rest ih =>
    rw [List.flatMap_cons, List.findSome?_append, findSome?_cons_eq_or, ih]

end FindSome

namespace Resolution

open ExportsTable (targetAt? add addAll)

variable {moduleType : ModuleType} {root : Path} {members : List (String × Json)}
  {makes : String → Option Target} {IsTarget : String → Target → Prop} {d : String}
  {c : Condition} {target : Target} {r : Resolution}

/-! ### What an object says -/

/-- The conditions of a destination's value, in document order; a value that is no object counts
as the target of `default`. -/
def conditionsOf : Json → List (String × Json)
  | .object members => members
  | value => [("default", value)]

/-- What an `exports` object says, in document order: each key with each condition of its value. -/
def said (members : List (String × Json)) : List (String × String × Json) :=
  members.flatMap fun m => (conditionsOf m.2).map fun x => (m.1, x)

/-- What is said gives the destination a target under a condition. -/
def Gives (moduleType : ModuleType) (IsTarget : String → Target → Prop) (d : String)
    (c : Condition) (x : String × String × Json) (target : Target) : Prop :=
  x.1 = d ∧ (Condition.ofKey x.2.1).remapDefault moduleType = c ∧
    ∃ text, HasText x.2.2 text ∧ IsTarget text target

/-- The first that gives the destination any target under the condition gives it this one. -/
def IsFirstTarget (moduleType : ModuleType) (IsTarget : String → Target → Prop)
    (members : List (String × Json)) (d : String) (c : Condition) (target : Target) : Prop :=
  ∃ x, IsFirst (fun x => ∃ t, Gives moduleType IsTarget d c x t) (said members) x ∧
    Gives moduleType IsTarget d c x target

/-- The table holds what the object says, and nothing else.  A key is a destination if it starts
with `.`; it is a pattern if it has a single wildcard, and taken as it is if it has no glob
character. -/
structure IsReferenceFor (moduleType : ModuleType) (root : Path) (members : List (String × Json))
    (t : ExportsTable) : Prop where
  exact : ∀ d c target, targetAt? t.exact d c = some target ↔
    (isSubpath d ∧ ¬ isGlob d) ∧ IsFirstTarget moduleType (IsExactTarget root) members d c target
  patterns : ∀ (p : Pattern) c target, targetAt? t.patterns p c = some target ↔
    (isSubpath p.text ∧ p.text.toList.count '*' = 1) ∧
      IsFirstTarget moduleType (IsPatternTarget root) members p.text c target
  /-- A destination without a target is absent. -/
  exact_present : ∀ d, t.exact.contains d ↔ ∃ c target, targetAt? t.exact d c = some target
  patterns_present : ∀ p, t.patterns.contains p ↔
    ∃ c target, targetAt? t.patterns p c = some target

/-! ### The entry of a destination -/

/-- The target that a condition's value makes, if it is for the given condition. -/
def targetFor? (makes : String → Option Target) (moduleType : ModuleType) (c : Condition)
    (x : String × Json) : Option Target :=
  if (Condition.ofKey x.1).remapDefault moduleType = c then (targetText? x.2).bind makes else none

theorem routes_eq (moduleType : ModuleType) (value : Json) :
    routes moduleType value = (conditionsOf value).filterMap fun x =>
      (targetText? x.2).map fun text => ((Condition.ofKey x.1).remapDefault moduleType, text) := by
  have hsingle : ∀ value : Json, (targetText? value).toList.map (fun text =>
      (moduleType.defaultCondition, text)) =
      [("default", value)].filterMap fun x => (targetText? x.2).map fun text =>
        ((Condition.ofKey x.1).remapDefault moduleType, text) := by
    intro value
    rw [List.filterMap_cons, List.filterMap_nil]
    cases targetText? value <;> rfl
  cases value with
  | object members => rfl
  | _ => exact hsingle _

/-- **An entry has the first target that the value makes under a condition.** -/
theorem find?_ofList_routes (value : Json) :
    (Entry.ofList ((routes moduleType value).filterMap fun t =>
      (makes t.2).map fun target => (t.1, target))).find? c =
      (conditionsOf value).findSome? (targetFor? makes moduleType c) := by
  rw [Entry.find?_ofList, findSome?_filterMap, routes_eq, findSome?_filterMap]
  congr 1
  funext x
  rw [targetFor?]
  cases targetText? x.2 with
  | none => simp
  | some text =>
    cases hmakes : makes text with
    | none => simp [hmakes]
    | some target => simp [hmakes, eq_comm]

theorem find?_exactEntry (value : Json) :
    (exactEntry root (routes moduleType value)).find? c = (conditionsOf value).findSome?
      (targetFor? (fun text => some (exactTarget root text)) moduleType c) := by
  rw [← find?_ofList_routes, exactEntry, ← List.filterMap_eq_map]
  rfl

theorem find?_patternEntry (value : Json) :
    (patternEntry root (routes moduleType value)).find? c = (conditionsOf value).findSome?
      (targetFor? (fun text => (patternTarget root text).toOption) moduleType c) := by
  rw [← find?_ofList_routes, patternEntry]

/-- A condition's value makes the target that it gives. -/
theorem targetFor?_eq_some_iff (h : ∀ text target, makes text = some target ↔ IsTarget text target)
    {x : String × String × Json} (hx : x.1 = d) :
    targetFor? makes moduleType c x.2 = some target ↔ Gives moduleType IsTarget d c x target := by
  rw [targetFor?]
  split
  · next hc =>
    rw [Option.bind_eq_some_iff]
    constructor
    · rintro ⟨text, htext, hmakes⟩
      exact ⟨hx, hc, text, hasText_iff.2 htext, (h text target).1 hmakes⟩
    · rintro ⟨-, -, text, htext, htarget⟩
      exact ⟨text, hasText_iff.1 htext, (h text target).2 htarget⟩
  · next hc => exact ⟨nofun, fun hgives => absurd hgives.2.1 hc⟩

/-- **Searching key by key finds the first target of what is said.** -/
theorem findSome?_eq_some_iff_isFirstTarget {Q : Prop} [Decidable Q]
    (h : ∀ text target, makes text = some target ↔ IsTarget text target) :
    (members.findSome? fun m => if m.1 = d ∧ Q then
        (conditionsOf m.2).findSome? (targetFor? makes moduleType c) else none) = some target ↔
      Q ∧ IsFirstTarget moduleType IsTarget members d c target := by
  have hflat : (members.findSome? fun m => if m.1 = d ∧ Q then
        (conditionsOf m.2).findSome? (targetFor? makes moduleType c) else none) =
      (said members).findSome? fun x => if x.1 = d ∧ Q then
        targetFor? makes moduleType c x.2 else none := by
    rw [said, findSome?_flatMap]
    congr 1
    funext m
    rw [List.findSome?_map]
    by_cases hm : m.1 = d ∧ Q
    · simp only [Function.comp_def, if_pos hm]
    · simp only [Function.comp_def, if_neg hm]
      exact (List.findSome?_eq_none_iff.2 fun _ _ => rfl).symm
  rw [hflat, findSome?_eq_some_iff_isFirst]
  have hgives : Q → ∀ x target, (if x.1 = d ∧ Q then targetFor? makes moduleType c x.2 else none) =
      some target ↔ Gives moduleType IsTarget d c x target := by
    intro hQ x target
    by_cases hx : x.1 = d
    · rw [if_pos ⟨hx, hQ⟩]
      exact targetFor?_eq_some_iff h hx
    · rw [if_neg fun hxQ => hx hxQ.1]
      exact ⟨nofun, fun hgives => absurd hgives.1 hx⟩
  constructor
  · rintro ⟨x, hfirst, hx⟩
    have hQ : Q := by
      by_contra hQ
      rw [if_neg fun hxQ => hQ hxQ.2] at hx
      cases hx
    refine ⟨hQ, x, hfirst.congr fun y _ => ?_, (hgives hQ x target).1 hx⟩
    rw [Option.isSome_iff_exists]
    exact exists_congr fun t => hgives hQ y t
  · rintro ⟨hQ, x, hfirst, hx⟩
    refine ⟨x, hfirst.congr fun y _ => ?_, (hgives hQ x target).2 hx⟩
    rw [Option.isSome_iff_exists]
    exact (exists_congr fun t => hgives hQ y t).symm

/-! ### The tables -/

/-- What a key adds to the destinations that are taken as they are. -/
def exactPart? (moduleType : ModuleType) (root : Path) (m : String × Json) :
    Option (String × Entry) :=
  if isSubpath m.1 ∧ ¬ isGlob m.1 then some (m.1, exactEntry root (routes moduleType m.2)) else none

/-- What a key adds to the destination patterns. -/
def patternPart? (moduleType : ModuleType) (root : Path) (m : String × Json) :
    Option (Pattern × Entry) :=
  if isSubpath m.1 then
    (Pattern.parse m.1).toOption.map fun p => (p, patternEntry root (routes moduleType m.2))
  else none

theorem table_addDestination (key : String) (value : Json) :
    (addDestination moduleType root r key value).table =
      { exact := addAll r.table.exact (exactPart? moduleType root (key, value)).toList
        patterns := addAll r.table.patterns (patternPart? moduleType root (key, value)).toList } := by
  rw [addDestination, exactPart?, patternPart?]
  cases hsub : isSubpath key with
  | false => simp [addAll]
  | true =>
    cases hglob : isGlob key with
    | false =>
      -- a text without glob characters is no pattern
      have hparse : (Pattern.parse key).toOption = none := by
        cases hp : Pattern.parse key with
        | error e => rfl
        | ok p =>
          have := Pattern.isGlob_of_count (Pattern.parse_eq_ok_iff.1 hp).1
          rw [hglob] at this
          cases this
      simp [hparse, addAll, ExportsTable.addExact_eq]
    | true =>
      cases hp : Pattern.parse key with
      | error e => simp [addAll, Except.toOption]
      | ok p => simp [addAll, Except.toOption, ExportsTable.addPattern_eq]

/-- **The members of an object are added part by part.** -/
theorem table_foldl (members : List (String × Json)) (r : Resolution) :
    (members.foldl (fun r m => addDestination moduleType root r m.1 m.2) r).table =
      { exact := addAll r.table.exact (members.filterMap (exactPart? moduleType root))
        patterns := addAll r.table.patterns (members.filterMap (patternPart? moduleType root)) } := by
  induction members generalizing r with
  | nil => rfl
  | cons m rest ih =>
    rw [List.foldl_cons, ih, table_addDestination, List.filterMap_cons, List.filterMap_cons]
    cases exactPart? moduleType root m <;> cases patternPart? moduleType root m <;> rfl

/-- The table of an object with a subpath. -/
theorem table_ofMembers (h : ∃ m ∈ members, isSubpath m.1) :
    (ofMembers moduleType root members).table =
      { exact := addAll .empty (members.filterMap (exactPart? moduleType root))
        patterns := addAll .empty (members.filterMap (patternPart? moduleType root)) } := by
  have hsub : members.any (fun m => isSubpath m.1) = true := List.any_eq_true.2 h
  rw [ofMembers, if_neg (by simp [hsub]), table_foldl]

theorem targetAt?_exactPart (members : List (String × Json)) :
    targetAt? (addAll .empty (members.filterMap (exactPart? moduleType root))) d c = some target ↔
      (isSubpath d ∧ ¬ isGlob d) ∧
        IsFirstTarget moduleType (IsExactTarget root) members d c target := by
  have hmakes : ∀ text target, some (exactTarget root text) = some target ↔
      IsExactTarget root text target := fun text target => by
    rw [Option.some_inj, eq_comm]
    rfl
  rw [← findSome?_eq_some_iff_isFirstTarget hmakes, ExportsTable.targetAt?_addAll,
    findSome?_filterMap]
  refine iff_of_eq (congrArg (· = some target) (Option.none_or.trans ?_))
  congr 1
  funext m
  rw [← find?_exactEntry, exactPart?]
  by_cases hd : m.1 = d
  · subst hd
    by_cases hkind : isSubpath m.1 ∧ ¬ isGlob m.1
    · rw [if_pos hkind, if_pos ⟨rfl, hkind⟩, Option.bind_some, if_pos rfl]
    · rw [if_neg hkind, if_neg fun h => hkind h.2, Option.bind_none]
  · have hno : ¬ (m.1 = d ∧ isSubpath d ∧ ¬ isGlob d) := fun h => hd h.1
    rw [if_neg hno]
    split
    · rw [Option.bind_some, if_neg (Ne.symm hd)]
    · rfl

theorem targetAt?_patternPart (members : List (String × Json)) {p : Pattern} :
    targetAt? (addAll .empty (members.filterMap (patternPart? moduleType root))) p c =
        some target ↔
      (isSubpath p.text ∧ p.text.toList.count '*' = 1) ∧
        IsFirstTarget moduleType (IsPatternTarget root) members p.text c target := by
  have hmakes : ∀ text target, (patternTarget root text).toOption = some target ↔
      IsPatternTarget root text target := fun text target => by
    rw [← patternTarget_eq_ok_iff]
    cases patternTarget root text <;> simp [Except.toOption]
  rw [← findSome?_eq_some_iff_isFirstTarget hmakes, ExportsTable.targetAt?_addAll,
    findSome?_filterMap]
  refine iff_of_eq (congrArg (· = some target) (Option.none_or.trans ?_))
  congr 1
  funext m
  rw [← find?_patternEntry, patternPart?]
  by_cases hp : m.1 = p.text ∧ isSubpath p.text ∧ p.text.toList.count '*' = 1
  · have hparse : Pattern.parse m.1 = .ok p := Pattern.parse_eq_ok_iff.2 ⟨hp.1 ▸ hp.2.2, hp.1.symm⟩
    rw [if_pos hp, if_pos (hp.1 ▸ hp.2.1), hparse]
    simp [Except.toOption]
  · rw [if_neg hp]
    split
    · next hsub =>
      cases hparse : Pattern.parse m.1 with
      | error e => rfl
      | ok q =>
        -- the key is read as one pattern only
        obtain ⟨hcount, htext⟩ := Pattern.parse_eq_ok_iff.1 hparse
        have hne : p ≠ q := by
          rintro rfl
          exact hp ⟨htext.symm, htext ▸ hsub, htext ▸ hcount⟩
        simp [Except.toOption, hne]
    · rfl

/-- **The table of an object with a subpath holds what the object says.** -/
theorem isReferenceFor_ofMembers (h : ∃ m ∈ members, isSubpath m.1) :
    IsReferenceFor moduleType root members (ofMembers moduleType root members).table := by
  rw [table_ofMembers h]
  refine ⟨fun d c target => targetAt?_exactPart members,
    fun p c target => targetAt?_patternPart members, fun d => ?_, fun p => ?_⟩
  · simp only [ExportsTable.contains_addAll_iff, Option.isSome_iff_exists]
  · simp only [ExportsTable.contains_addAll_iff, Option.isSome_iff_exists]

/-- Conditions without a subpath are those of the root. -/
theorem ofMembers_of_conditions (h : ∀ m ∈ members, ¬ isSubpath m.1) :
    ofMembers moduleType root members =
      ofMembers moduleType root [(".", .object members)] := by
  have hroot : ofMembers moduleType root [(".", .object members)] =
      atRoot (exactEntry root (routes moduleType (.object members))) := by
    have hsub : isSubpath "." = true := by decide
    have hglob : isGlob "." = false := by decide
    simp [ofMembers, addDestination, atRoot, hsub, hglob]
  rw [hroot, ofMembers]
  cases members with
  | nil => rfl
  | cons m rest =>
    have hany : (m :: rest).any (fun m => isSubpath m.1) = false := by
      simpa using h
    rw [if_pos (by simp [hany])]

/-- **An `exports` object is resolved to the table that it says.**  Without a subpath its members are
the conditions of the root; otherwise every destination has under each condition the first target
that the document gives it, and there is nothing else in the table. -/
theorem ofManifest_object (m : Manifest) (root : Path) (members : List (String × Json)) :
    let resolve (exports : Json) := ofManifest { m with exports := some exports } root
    ((∀ x ∈ members, ¬ isSubpath x.1) →
      resolve (.object members) = resolve (.object [(".", .object members)])) ∧
    ((∃ x ∈ members, isSubpath x.1) →
      IsReferenceFor m.moduleType root members (resolve (.object members)).table) :=
  ⟨fun h => ofMembers_of_conditions h, fun h => isReferenceFor_ofMembers h⟩

/-- Two conditions of one module package that come to `import`: the text of the first is no
pattern, as it has two wildcards. -/
def sampleExports : List (String × Json) :=
  [("./*", .object [
      ("default", .array [.null, .string "./src/**.js"]),
      ("import", .object [("types", .string "./a.d.ts"), ("default", .string "./src/*.js")])]),
    ("import", .string "./none.js"),
    (".", .array [.bool true, .string "./lib/../index.js"])]

/-- The conditions of a package's root. -/
def sampleConditions : List (String × Json) :=
  [("default", .string "./a.js"), ("import", .string "./b.js"), ("script", .null)]

/-- A target that cannot be made leaves its place to the next one. -/
theorem ofManifest_object_samples :
    let resolve (exports : Json) :=
      ofManifest { moduleType := .module, exports := some exports } ⟨"ui"⟩
    let table := (resolve (.object sampleExports)).table
    ((∀ x ∈ sampleConditions, ¬ isSubpath x.1) ∧
      (resolve (.object sampleConditions)).table.exact.keys = ["."] ∧
      resolve (.object sampleConditions) = resolve (.object [(".", .object sampleConditions)])) ∧
    (∃ x ∈ sampleExports, isSubpath x.1) ∧
      targetAt? table.patterns ⟨"./", ""⟩ .importModule = some (.pattern ⟨"ui/src/", ".js"⟩) ∧
      targetAt? table.exact "." .importModule = some (.path ⟨"ui/index.js"⟩) ∧
      table.exact.keys = ["."] ∧
      IsReferenceFor .module ⟨"ui"⟩ sampleExports table := by
  intro resolve table
  have hconditions : ∀ x ∈ sampleConditions, ¬ isSubpath x.1 := by decide +kernel
  have hexports : ∃ x ∈ sampleExports, isSubpath x.1 := by decide +kernel
  refine ⟨⟨hconditions, by decide +kernel, ?_⟩, hexports, by decide +kernel, by decide +kernel,
    by decide +kernel, ?_⟩
  · exact (ofManifest_object { moduleType := .module } ⟨"ui"⟩ sampleConditions).1 hconditions
  · exact (ofManifest_object { moduleType := .module } ⟨"ui"⟩ sampleExports).2 hexports

end Resolution

end PackageRouting
