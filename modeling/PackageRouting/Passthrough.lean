/-
PackageRouting/Passthrough.lean

The bundler that copies: each input becomes a chunk of its own, with its text as
it is, a line end at the end, and the comment that names the source map when
there is one.

Its token holds the texts that it read.  A text is used again as long as the
file's size and time of change are the same.

An input without a reserved name gets one that is free among the reserved and
the invented names.
-/
import PackageRouting.Bundler
import PackageRouting.Disk.Script
import PackageRouting.Json.Printer
import PackageRouting.Text.Utf8

namespace PackageRouting

/-- What tells two states of a file apart without reading it. -/
structure Stamp where
  size : Nat
  modified : Int
  deriving DecidableEq, Repr

/-- The files that a bundler can see. -/
structure SourceFiles where
  stamp : Path → Except DiskError Stamp
  text : Path → Except DiskError String

namespace SourceFiles

/-- The files of a disk; bytes that are not UTF-8 are replaced. -/
def ofDisk (d : Disk) : SourceFiles where
  stamp p := (d.status p).map fun s => ⟨s.size, s.modified⟩
  text p := (d.read p).map Text.decodeLossy

/-- What is found at a path. -/
structure Reading where
  stamp : Except DiskError Stamp
  text : Except DiskError String

/-- The files of a list, and nothing else. -/
def ofReadings (readings : SortedMap Path Reading) : SourceFiles where
  stamp p := (readings.find? p).elim (.error .notFound) (·.stamp)
  text p := (readings.find? p).elim (.error .notFound) (·.text)

end SourceFiles

namespace Script

/-- Reads one of the files that a bundler is going to see. -/
def readSource (p : Path) : Script SourceFiles.Reading := do
  let status ← status p
  let bytes ← read p
  return ⟨status.map fun s => ⟨s.size, s.modified⟩, bytes.map Text.decodeLossy⟩

/-- Reads the files that a bundler is going to see. -/
def readSources (paths : List Path) : Script SourceFiles := do
  let readings ← paths.foldlM
    (fun readings p => return SortedMap.insert readings p (← readSource p)) .empty
  return .ofReadings readings

end Script

namespace Passthrough

/-- The texts that were read, with the stamps they had. -/
abbrev Cache := SortedMap Path (Stamp × String)

/-- The text without a line end at its end gets one. -/
def ensureNewline (code : String) : String :=
  if code.toList.getLast? = some '\n' then code else code ++ "\n"

/-- The comment that names the source map of an output. -/
def mapComment (fileName : String) : String := "//# sourceMappingURL=" ++ fileName ++ ".map\n"

/-- The source map of an output, which maps nothing. -/
def sourceMap (fileName : String) (input : Path) : String :=
  Json.compact (.object [
    ("version", Json.natural 3),
    ("file", .string fileName),
    ("sources", .array [.string input.toSlash]),
    ("names", .array []),
    ("mappings", .string "")])

/-- The chunk of an input with the given text. -/
def chunk (withMap : Bool) (input : Path) (fileName text : String) : Chunk where
  name := Text.trimAllBack bundleExtension fileName
  fileName := fileName
  code := if withMap then ensureNewline text ++ mapComment fileName else ensureNewline text
  sourceMap := if withMap then some (sourceMap fileName input) else none
  entry := some input

/-- The names of the inputs: the reserved ones, and new ones for the others. -/
def fileNames (reserved : SortedMap Path String) : List String → List Path → List String
  | _, [] => []
  | taken, input :: rest =>
    match reserved.find? input with
    | some name => name :: fileNames reserved taken rest
    | none =>
      let name := input.uniqueOutputName taken
      name :: fileNames reserved (name :: taken) rest

/-- The failure to read an input. -/
def readError (input : Path) (reason : DiskError) : BundlerError where
  message := "cannot read entry " ++ input.toSlash ++ ": " ++ reason.message
  path := some input

/-- The stamp and text of an input, where an earlier text with the same stamp is used again. -/
def load (files : SourceFiles) (root : Path) (previous : Cache) (input : Path) :
    Except BundlerError (Stamp × String) := do
  let place := root.join input
  let stamp ← (files.stamp place).mapError (readError input)
  match previous.find? input with
  | some (earlier, text) =>
    if earlier = stamp then return (stamp, text)
    else return (stamp, ← (files.text place).mapError (readError input))
  | none => return (stamp, ← (files.text place).mapError (readError input))

/-- The texts of the inputs.  Each earlier text is used at most once. -/
def loadAll (files : SourceFiles) (root : Path) (previous : Cache) :
    List Path → Except BundlerError (List (Path × Stamp × String))
  | [] => return []
  | input :: rest => do
    let loaded ← load files root previous input
    return (input, loaded) :: (← loadAll files root (previous.erase input) rest)

/-- The bundler over the files below a root. -/
def bundle (files : SourceFiles) (root : Path) : Bundler Cache := fun r => do
  let loaded ← loadAll files root (r.cache.getD .empty) r.inputs
  let names := fileNames r.outputNames r.outputNames.values r.inputs
  return {
    chunks := List.zipWith
      (fun (input, _, text) name => chunk r.options.sourcemap input name text) loaded names
    cache := some (.ofList loaded) }

end Passthrough

end PackageRouting
