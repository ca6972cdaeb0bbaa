/-
PackageRouting/Exports/Resolution.lean

From a manifest to its routing table.

`exports` may be absent, a single path, an object of subpaths, or an object of
conditions for the root.  Resolving never fails: a shape that means nothing is
passed over, and a destination or target with a wrong number of wildcards is
left out and reported.

The value of a destination is read in two steps.  `routes` lists the target
texts in document order, each with the condition it is for; the texts then
become paths or patterns as seen from the package's directory.
-/
import PackageRouting.Exports.Table
import PackageRouting.Manifest

namespace PackageRouting

/-- A routing table, and what was left out of it. -/
structure Resolution where
  table : ExportsTable := {}
  errors : List PatternShapeError := []
  deriving Inhabited

namespace Resolution

/-! ### Target texts -/

mutual

/-- The target text of a condition's value: the text itself, that of the first usable item of a
list, or that of the `default` member of an object. -/
def targetText? : Json → Option String
  | .string s => some s
  | .array items => firstTargetText? items
  | .object members => defaultTargetText? members
  | _ => none

/-- The target text of the first usable item. -/
def firstTargetText? : List Json → Option String
  | [] => none
  | item :: rest => targetText? item <|> firstTargetText? rest

/-- The target text of the `default` member. -/
def defaultTargetText? : List (String × Json) → Option String
  | [] => none
  | (key, value) :: rest => if key = "default" then targetText? value else defaultTargetText? rest

end

/-- The target texts of a destination's value with their conditions, in document order.  A value
that is no object counts as the target of the package's default condition. -/
def routes (moduleType : ModuleType) : Json → List (Condition × String)
  | .object members =>
    members.filterMap fun (key, value) =>
      (targetText? value).map fun text => ((Condition.ofKey key).remapDefault moduleType, text)
  | value => (targetText? value).toList.map fun text => (moduleType.defaultCondition, text)

/-! ### Targets -/

/-- A target text as a path. -/
def exactTarget (root : Path) (text : String) : Target := .path (root.joinNormalized text)

/-- A target text behind a destination pattern: with glob characters it must be a pattern. -/
def patternTarget (root : Path) (text : String) : Except PatternShapeError Target :=
  if isGlob text then do
    let pattern ← Pattern.parse text
    return .pattern (← pattern.rooted root)
  else .ok (exactTarget root text)

/-- The entry of an exact destination. -/
def exactEntry (root : Path) (texts : List (Condition × String)) : Entry :=
  .ofList (texts.map fun (condition, text) => (condition, exactTarget root text))

/-- The entry of a destination pattern, from the target texts that make a target. -/
def patternEntry (root : Path) (texts : List (Condition × String)) : Entry :=
  .ofList (texts.filterMap fun (condition, text) =>
    (patternTarget root text).toOption.map fun target => (condition, target))

/-- What is wrong with the target texts of a destination pattern. -/
def targetErrors (root : Path) (texts : List (Condition × String)) : List PatternShapeError :=
  texts.filterMap fun (_, text) =>
    match patternTarget root text with
    | .ok _ => none
    | .error e => some e

/-! ### Tables -/

/-- Whether a key of an `exports` object is a subpath. -/
def isSubpath (key : String) : Bool := key.toList.head? = some '.'

/-- Adds one member of an object of subpaths. -/
def addDestination (moduleType : ModuleType) (root : Path) (r : Resolution)
    (key : String) (value : Json) : Resolution :=
  let texts := routes moduleType value
  if !isSubpath key then r
  else if !isGlob key then { r with table := r.table.addExact key (exactEntry root texts) }
  else
    match Pattern.parse key with
    | .error e => { r with errors := r.errors ++ [e] }
    | .ok pattern =>
      { table := r.table.addPattern pattern (patternEntry root texts)
        errors := r.errors ++ targetErrors root texts }

/-- The table with targets at the root alone. -/
def atRoot (entry : Entry) : Resolution where
  table := ExportsTable.addExact {} "." entry

/-- The table of an `exports` object.  Without any subpath it holds the conditions of the root. -/
def ofMembers (moduleType : ModuleType) (root : Path) (members : List (String × Json)) :
    Resolution :=
  if !members.isEmpty && !members.any (fun m => isSubpath m.1) then
    atRoot (exactEntry root (routes moduleType (.object members)))
  else
    members.foldl (fun r m => addDestination moduleType root r m.1 m.2) {}

/-- The table of a manifest whose package lies in a directory. -/
def ofManifest (m : Manifest) (root : Path) : Resolution :=
  let rootTargets (texts : List (Condition × String)) := atRoot (exactEntry root texts)
  match m.exports, m.scriptEntry with
  | none, none => rootTargets [(m.moduleType.defaultCondition, "./index.js")]
  | none, some script => rootTargets [(m.moduleType.defaultCondition, script)]
  | some (.string path), none => rootTargets [(.default, path)]
  | some (.string path), some script => rootTargets [(.importModule, path), (.script, script)]
  | some (.object members), _ => ofMembers m.moduleType root members
  | some _, _ => {}

end Resolution

end PackageRouting
