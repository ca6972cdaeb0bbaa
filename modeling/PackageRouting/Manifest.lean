/-
PackageRouting/Manifest.lean

Package manifests: the fields of a `package.json` that say how a package is
routed.  A field of another type than expected counts as absent, and everything
else in the file is ignored.
-/
import PackageRouting.Condition
import PackageRouting.Disk.Error
import PackageRouting.Json.Parser
import PackageRouting.Path.Basic

namespace PackageRouting

/-- The name of every manifest file. -/
def manifestName : String := "package.json"

/-- Why a manifest is of no use. -/
inductive ManifestError where
  | read (path : Path) (reason : DiskError)
  | parse (path : Path) (reason : Json.ReadError)
  /-- The file holds a JSON value other than an object. -/
  | shape (path : Path)
  deriving DecidableEq, Repr

namespace ManifestError

def code : ManifestError → String
  | read .. => "MANIFEST_READ_ERROR"
  | parse .. => "MANIFEST_PARSE_ERROR"
  | shape .. => "MANIFEST_SHAPE_ERROR"

def path : ManifestError → Path
  | read path _ => path
  | parse path _ => path
  | shape path => path

def message : ManifestError → String
  | read path reason => "failed to read " ++ path.text ++ ": " ++ reason.message
  | parse path reason => "invalid JSON in " ++ path.text ++ ": " ++ reason.message
  | shape path => path.text ++ " must contain a JSON object"

end ManifestError

/-- The fields of a manifest that matter. -/
structure Manifest where
  /-- The package's name; an empty one counts as absent. -/
  name : Option String := none
  isPrivate : Bool := false
  moduleType : ModuleType := .classic
  main : Option String := none
  browser : Option String := none
  /-- The `exports` value as it was read; null counts as absent. -/
  exports : Option Json := none

namespace Manifest

/-- The fields of a JSON object. -/
def ofMembers (members : List (String × Json)) : Manifest :=
  let field (key : String) : Option Json := Json.memberIn? key members
  { name := ((field "name").bind Json.string?).filter (· ≠ "")
    isPrivate := ((field "private").bind Json.bool?).getD false
    moduleType := .ofField ((field "type").bind Json.string?)
    main := (field "main").bind Json.string?
    browser := (field "browser").bind Json.string?
    exports := (field "exports").filter fun v => !v.isNull }

/-- The manifest that a JSON value is, unless it is no object. -/
def ofJson? : Json → Option Manifest
  | .object members => some (ofMembers members)
  | _ => none

/-- Reads the text of a manifest; the path is for messages. -/
def parse (path : Path) (text : String) : Except ManifestError Manifest :=
  match Json.parse text with
  | .error e => .error (.parse path e)
  | .ok value =>
    match ofJson? value with
    | some m => .ok m
    | none => .error (.shape path)

/-- The entry for scripts: `main`, or else `browser`. -/
def scriptEntry (m : Manifest) : Option String := m.main <|> m.browser

end Manifest

end PackageRouting
