/-
PackageRouting/CommandLine/Report.lean

What the commands print: tables for readers, JSON for programs.
-/
import PackageRouting.CommandLine.Project
import PackageRouting.ImportMap
import PackageRouting.Json.Printer

namespace PackageRouting.CommandLine

/-- The version of the program. -/
def version : String := "0.2.0"

/-- The version of the JSON that is printed. -/
def schemaVersion : Nat := 1

/-- The program with its version. -/
def versionText : String := "localpkg " ++ version

/-- The text of some lines. -/
def lines (l : List String) : String := String.join (l.map (· ++ "\n"))

/-- The first members of every answer. -/
def header (ok : Bool) : List (String × Json) :=
  [("ok", .bool ok), ("schema_version", Json.natural schemaVersion)]

/-- An answer over several lines. -/
def answer (ok : Bool) (members : List (String × Json)) : String :=
  lines [Json.prettyText (.object (header ok ++ members))]

/-- An error that stops a command. -/
def errorText (code message : String) : String :=
  lines [Json.compact (.object (header false ++
    [("error", .object [("code", .string code), ("message", .string message)])]))]

/-- The version as JSON. -/
def versionJson : String :=
  lines [Json.compact (.object (header true ++ [("version", .string version)]))]

/-- An error in a table. -/
def errorLine (code message : String) : String := "error[" ++ code ++ "]: " ++ message

/-- A text with blanks up to a width. -/
def pad (width : Nat) (s : String) : String :=
  s ++ String.ofList (List.replicate (width - s.length) ' ')

/-! ### Exports -/

/-- What became of a manifest. -/
structure ManifestReport where
  manifest : Path
  /-- The package, unless the manifest is of no use. -/
  package : Option Package
  /-- What is wrong, as codes and messages. -/
  errors : List (String × String)

namespace ManifestReport

/-- Resolves a manifest that was read, or not. -/
def ofSource (path : Path) : Except ManifestError ManifestSource → ManifestReport
  | .error e => ⟨path, none, [(e.code, e.message)]⟩
  | .ok source =>
    match source.resolve with
    | .error e => ⟨path, none, [(e.code, e.message)]⟩
    | .ok (p, errors) =>
      ⟨path, some p, errors.map fun e => (PatternShapeError.code, e.message)⟩

def name? (r : ManifestReport) : Option String := r.package.bind (·.name)

def isPrivate (r : ManifestReport) : Bool := r.package.any (·.isPrivate)

def toJson (r : ManifestReport) : Json :=
  .object ([("manifest", .string r.manifest.text)] ++
    (r.name?.toList.map fun name => ("name", .string name)) ++
    [("private", .bool r.isPrivate)] ++
    (r.package.toList.map fun p => ("exports", p.exports.toJson)) ++
    [("errors", .array (r.errors.map fun (code, message) =>
      .object [("code", .string code), ("message", .string message)]))])

/-- The lines of a destination. -/
def entryLines (destination : String) (entry : Entry) : List String :=
  entry.entries.map fun (condition, target) =>
    "  " ++ pad 16 destination ++ " " ++ pad 8 condition.key ++ " " ++ target.text

/-- The lines of a routing table. -/
def tableLines (t : ExportsTable) : List String :=
  (t.exact.entries.flatMap fun (destination, entry) => entryLines destination entry) ++
    t.patterns.entries.flatMap fun (destination, entry) => entryLines destination.text entry

def toLines (r : ManifestReport) : List String :=
  (r.name?.getD "<unnamed>" ++ (if r.isPrivate then " (private)" else "") ++
      "  [" ++ r.manifest.text ++ "]") ::
    ((r.package.toList.flatMap fun p => tableLines p.exports) ++
      r.errors.map fun (code, message) => "  " ++ errorLine code message)

end ManifestReport

/-- The answer of the command that shows exports. -/
def exportsText (json : Bool) (reports : List ManifestReport) : String :=
  if json then
    answer (reports.all (·.errors.isEmpty)) [("packages", .array (reports.map (·.toJson)))]
  else if reports.isEmpty then lines ["No package.json found."]
  else lines (reports.flatMap (·.toLines))

/-! ### Plans -/

/-- The lines of a bucket. -/
def bucketLines (b : Bucket) : List String :=
  (b.key.label ++ " (" ++ toString b.inputs.size ++ " inputs)") ::
    ((b.inputs.toList.map fun path =>
        "  " ++ path.text ++ if b.nomodule.contains path then "  nomodule" else "") ++
      b.delivered.entries.flatMap fun (destination, conditions) =>
        conditions.entries.map fun (condition, output) =>
          "  " ++ destination ++ " [" ++ condition.key ++ "] -> " ++ output)

/-- The answer of the command that shows how sources are split. -/
def planText (json : Bool) (discovery : DiscoveryReport) (p : Partition) : String :=
  if json then
    answer discovery.failures.isEmpty
      [("discovery", discovery.toJson), ("partition", p.toJson)]
  else
    lines ((discovery.failures.map fun f => errorLine f.code f.message) ++
      p.buckets.flatMap bucketLines ++ if p.sourceMaps then ["source maps: on"] else [])

/-- The answer of the command that prints an import map. -/
def importMapText (json : Bool) (discovery : DiscoveryReport) (m : ImportMap) : String :=
  if json then answer discovery.failures.isEmpty [("importmap", m.toJson)]
  else lines [Json.prettyText (.object [("imports", m.importsJson)])]

/-! ### Builds -/

/-- The answer of the command that builds. -/
def buildText (json : Bool) (outDir : Path) (milliseconds : Nat) (r : PassReport) : String :=
  if json then
    answer r.isClean
      [("out_dir", .string outDir.text),
       ("duration_ms", Json.natural milliseconds),
       ("report", r.toJson)]
  else
    lines (("Bundled " ++ toString r.bundles.bundled ++ " bucket(s) into " ++ outDir.text ++ ": " ++
        toString r.bundles.written ++ " file(s) written, " ++ toString r.bundles.skipped ++
        " skipped") ::
      ((r.discovery.failures.map fun f =>
          errorLine f.code (f.message ++ " (" ++ f.path.text ++ ")")) ++
        (r.bundles.failures.map fun f =>
          errorLine BundlerError.code (f.bucket.label ++ ": " ++ f.error.message)) ++
        r.bundles.writeFailures.map fun f => errorLine f.error.code f.error.message))

end PackageRouting.CommandLine
