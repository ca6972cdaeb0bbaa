/-
PackageRouting/ImportMap.lean

Import maps: the URL behind each specifier that a page may import, and the URLs
of the classic scripts, which cannot be imported.

A package's outputs are served below its name.  A destination is importable when
it delivers an `import` or `default` output that is not wrapped.
-/
import PackageRouting.Partition

namespace PackageRouting

/-- What a page can import, and the scripts it has to load by themselves. -/
structure ImportMap where
  /-- The URL of each specifier. -/
  imports : SortedMap String String := .empty
  /-- The URLs of the wrapped outputs. -/
  scripts : SortedSet String := .empty
  deriving DecidableEq, Inhabited

namespace ImportMap

def isEmpty (m : ImportMap) : Bool := m.imports.isEmpty && m.scripts.isEmpty

/-- The specifier of a destination: the package's name for `.`, and below it for a subpath. -/
def specifier (name destination : String) : String :=
  match Text.dropFront? "./" destination with
  | none => name
  | some sub => if sub.isEmpty then name else name ++ "/" ++ sub

/-- The URL of an output. -/
def url (base name output : String) : String := base ++ "/" ++ name ++ "/" ++ output

/-- Whether the output of a bucket is wrapped. -/
def isWrapped (b : Bucket) (output : String) : Bool :=
  (b.files.find? output).any fun file => b.nomodule.contains file.path

/-- The output that a destination's specifier leads to. -/
def moduleOutput? (b : Bucket) (conditions : SortedMap Condition String) : Option String :=
  ([Condition.importModule, .default].filterMap conditions.find?).find? fun o => !isWrapped b o

/-- Adds what a bucket delivers to one destination. -/
def addDestination (base name : String) (b : Bucket) (m : ImportMap) (destination : String)
    (conditions : SortedMap Condition String) : ImportMap where
  scripts := (conditions.values.filter (isWrapped b)).foldl
    (fun s output => s.insert (url base name output)) m.scripts
  imports :=
    match moduleOutput? b conditions with
    | some output => m.imports.insertNew (specifier name destination) (url base name output)
    | none => m.imports

/-- Adds what a package's bucket delivers. -/
def addBucket (base : String) (m : ImportMap) (b : Bucket) : ImportMap :=
  match b.key.name? with
  | some name => b.delivered.entries.foldl (fun m d => addDestination base name b m d.1 d.2) m
  | none => m

/-- The import map of a partition whose outputs are served below a URL. -/
def ofPartition (p : Partition) (baseUrl : String) : ImportMap :=
  p.packages.foldl (addBucket (Text.trimBack '/' baseUrl)) {}

/-- The specifiers with their URLs. -/
def importsJson (m : ImportMap) : Json :=
  .object (m.imports.entries.map fun (specifier, url) => (specifier, .string url))

/-- The import map as it is shown to other programs; scripts are named if there are any. -/
def toJson (m : ImportMap) : Json :=
  .object (("imports", m.importsJson) ::
    if m.scripts.isEmpty then []
    else [("scripts", Json.strings m.scripts.toList)])

end ImportMap

end PackageRouting
