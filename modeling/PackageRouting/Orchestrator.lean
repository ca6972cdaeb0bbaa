/-
PackageRouting/Orchestrator.lean

Bundling the buckets of a partition.

Every bucket with an input makes one request.  The answers are turned into files
and written in the order of the buckets; a path that was written before in the
run is not written again.  A failing bucket is reported and stops no other.

In incremental mode the token of a bucket's last answer goes into its next
request.  Tokens of buckets that the partition lacks are dropped, and leaving
the mode drops all of them.
-/
import PackageRouting.Bundler
import PackageRouting.Partition

namespace PackageRouting

/-- A bucket whose bundler call failed. -/
structure BucketFailure where
  bucket : BucketKey
  error : BundlerError
  deriving DecidableEq, Repr

/-- A file that was not written. -/
structure WriteFailure where
  path : Path
  error : SinkError
  deriving DecidableEq, Repr

/-- What a run did. -/
structure BundleReport where
  /-- The buckets that made a request. -/
  bundled : Nat := 0
  /-- The buckets without an input. -/
  skipped : Nat := 0
  /-- The files that the sink took. -/
  written : Nat := 0
  failures : List BucketFailure := []
  writeFailures : List WriteFailure := []
  deriving DecidableEq, Repr, Inhabited

namespace BundleReport

/-- Whether nothing failed. -/
def isClean (r : BundleReport) : Bool := r.failures.isEmpty && r.writeFailures.isEmpty

def bucketFailureJson (f : BucketFailure) : Json :=
  .object ([("bucket", f.bucket.toJson),
      ("code", .string BundlerError.code),
      ("message", .string f.error.message)] ++
    match f.error.path with
    | some path => [("path", .string path.text)]
    | none => [])

def writeFailureJson (f : WriteFailure) : Json :=
  .object [
    ("path", .string f.path.text),
    ("code", .string f.error.code),
    ("message", .string f.error.message)]

/-- The report as it is shown to other programs. -/
def toJson (r : BundleReport) : Json :=
  .object [
    ("bundled", Json.natural r.bundled),
    ("skipped", Json.natural r.skipped),
    ("written", Json.natural r.written),
    ("failures", .array (r.failures.map bucketFailureJson)),
    ("write_failures", .array (r.writeFailures.map writeFailureJson))]

end BundleReport

/-- The settings of repeated runs, and the tokens held between them. -/
structure Orchestrator (τ : Type) where
  outDir : Path
  overrides : Overrides
  incremental : Bool := false
  caches : SortedMap BucketKey τ := .empty

namespace Orchestrator

variable {τ : Type}

/-- Turns incremental mode on or off. -/
def setIncremental (o : Orchestrator τ) (incremental : Bool) : Orchestrator τ :=
  { o with
    incremental := incremental
    caches := if incremental then o.caches else .empty }

/-- Whether a token is held for a bucket. -/
def hasCache (o : Orchestrator τ) (key : BucketKey) : Bool := o.caches.contains key

/-- The directory of a bucket's outputs. -/
def bucketDir (o : Orchestrator τ) : BucketKey → Path
  | .shared => o.outDir
  | .package name => o.outDir.join name

/-! ### Requests -/

/-- Drops the tokens of buckets that are not in the partition. -/
def prune (o : Orchestrator τ) (p : Partition) : Orchestrator τ :=
  { o with caches := o.caches.filter fun key _ => p.buckets.any (·.key == key) }

/-- The request for a bucket, into which its token moves. -/
def request (o : Orchestrator τ) (options : Options) (b : Bucket) : Request τ × Orchestrator τ :=
  ({ bucket := b.key
     inputs := b.inputs.toList
     outputNames := b.outputNames
     outDir := o.bucketDir b.key
     options := options
     cache := if o.incremental then o.caches.find? b.key else none },
   if o.incremental then { o with caches := o.caches.erase b.key } else o)

/-- The requests for the buckets that have inputs. -/
def requestAll (o : Orchestrator τ) (options : Options) :
    List Bucket → List (Bucket × Request τ) × Orchestrator τ
  | [] => ([], o)
  | b :: rest =>
    if b.isEmpty then o.requestAll options rest
    else
      let (r, o) := o.request options b
      let (rs, o) := o.requestAll options rest
      ((b, r) :: rs, o)

/-- The requests of a run in order. -/
def requests (o : Orchestrator τ) (p : Partition) : List (Request τ) :=
  ((o.prune p).requestAll (.resolve o.overrides p.sourceMaps) p.buckets).1.map (·.2)

/-! ### Answers -/

/-- What the bundler's answers come to: the tokens held afterwards, the failing buckets, and all
emitted files in order. -/
structure Settled (τ : Type) where
  orchestrator : Orchestrator τ
  failures : List BucketFailure := []
  files : List OutputFile := []

/-- Keeps the token of an answer, in incremental mode. -/
def keepToken (o : Orchestrator τ) (key : BucketKey) (token : Option τ) : Orchestrator τ :=
  match token with
  | some t => if o.incremental then { o with caches := o.caches.insert key t } else o
  | none => o

/-- Takes the answer for a bucket. -/
def settle (s : Settled τ) (b : Bucket) (r : Request τ) :
    Except BundlerError (Emitted τ) → Settled τ
  | .error e => { s with failures := s.failures ++ [⟨b.key, e⟩] }
  | .ok emitted =>
    { s with
      orchestrator := s.orchestrator.keepToken b.key emitted.cache
      files := s.files ++
        OutputFile.ofEmitted b emitted.chunks emitted.assets r.outDir r.options.minify }

/-- Bundles the buckets of a partition; nothing is written yet. -/
def bundle (bundler : Bundler τ) (o : Orchestrator τ) (p : Partition) : Nat × Settled τ :=
  let (issued, o) := (o.prune p).requestAll (.resolve o.overrides p.sourceMaps) p.buckets
  (issued.length,
   issued.foldl (fun s (b, r) => settle s b r (bundler r)) { orchestrator := o })

/-! ### Writing -/

/-- Each file, with whether its path comes up for the first time. -/
def markFresh (seen : SortedSet Path) : List OutputFile → List (OutputFile × Bool)
  | [] => []
  | file :: rest =>
    (file, !seen.contains file.path) :: markFresh (seen.insert file.path) rest

/-- The refusal of a path that was written before. -/
def repeated (file : OutputFile) : SinkError :=
  .rejected file.path "path already written in this pass"

/-- Hands every file to the sink whose path comes up for the first time. -/
def writeAll {m : Type → Type} [Monad m] (sink : OutputFile → m (Except SinkError Unit)) :
    List (OutputFile × Bool) → m (List (OutputFile × Except SinkError Unit))
  | [] => return []
  | (file, fresh) :: rest => do
    let written ← if fresh then sink file else pure (.error (repeated file))
    return (file, written) :: (← writeAll sink rest)

/-- The report of a run, given what became of each file. -/
def report (p : Partition) (bundled : Nat) (failures : List BucketFailure)
    (results : List (OutputFile × Except SinkError Unit)) : BundleReport where
  bundled := bundled
  skipped := p.buckets.countP (·.isEmpty)
  written := results.countP fun r => r.2.isOk
  failures := failures
  writeFailures := results.filterMap fun
    | (_, .ok ()) => none
    | (file, .error e) => some ⟨file.path, e⟩

/-- Bundles a partition and writes what comes of it. -/
def run {m : Type → Type} [Monad m] (bundler : Bundler τ)
    (sink : OutputFile → m (Except SinkError Unit)) (o : Orchestrator τ) (p : Partition) :
    m (Orchestrator τ × BundleReport) := do
  let (bundled, settled) := o.bundle bundler p
  let results ← writeAll sink (markFresh .empty settled.files)
  return (settled.orchestrator, report p bundled settled.failures results)

end Orchestrator

end PackageRouting
