/-
PackageRouting/Bucket.lean

Buckets: the input files of one bundler call, with the output name reserved for
each of them and what is delivered where.

Adding an input twice changes nothing, and a destination keeps the output that
reached it first under a condition.
-/
import PackageRouting.Condition
import PackageRouting.Json.Value
import PackageRouting.Path.OutputName
import PackageRouting.SortedMap

namespace PackageRouting

open Std

/-- A source file of a pass. -/
structure SourceFile where
  path : Path
  /-- A source map is wanted for it. -/
  sourceMap : Bool := false
  deriving DecidableEq, Repr, Inhabited

/-- What a bucket is for. -/
inductive BucketKey where
  /-- The files of no package. -/
  | shared
  | package (name : String)
  deriving DecidableEq, Repr, Inhabited

namespace BucketKey

/-- The package's name, if the bucket belongs to one. -/
def name? : BucketKey → Option String
  | shared => none
  | package name => some name

/-- The shared bucket comes before all packages. -/
def rank : BucketKey → Nat
  | shared => 0
  | package _ => 1

/-- What a message calls the bucket. -/
def label : BucketKey → String
  | shared => "<shared>"
  | package name => name

instance : Ord BucketKey where
  compare := compareLex (compareOn rank) (compareOn label)

instance : TransOrd BucketKey :=
  inferInstanceAs (TransCmp (compareLex (compareOn rank) (compareOn label)))

instance : LawfulEqOrd BucketKey where
  eq_of_compare {a b} h := by
    replace h : compareLex (compareOn rank) (compareOn label) a b = .eq := h
    rw [compareLex_eq_eq] at h
    obtain ⟨hr, hl⟩ := h
    replace hr : rank a = rank b := LawfulEqOrd.eq_of_compare hr
    replace hl : label a = label b := LawfulEqOrd.eq_of_compare hl
    cases a <;> cases b <;> simp_all [rank, label]

def toJson (key : BucketKey) : Json := Json.stringOrNull key.name?

end BucketKey

/-- How the output of an export runs. -/
inductive Delivery where
  /-- As an ES module. -/
  | module
  /-- As a classic script. -/
  | nomodule
  deriving DecidableEq, Repr

/-- The input files of one bundler call. -/
structure Bucket where
  key : BucketKey
  inputs : SortedSet Path := .empty
  /-- The inputs whose output is wrapped as a classic script. -/
  nomodule : SortedSet Path := .empty
  /-- The source file behind each output name. -/
  files : SortedMap String SourceFile := .empty
  /-- The output name reserved for each input. -/
  outputNames : SortedMap Path String := .empty
  /-- The output for each destination and condition. -/
  delivered : SortedMap String (SortedMap Condition String) := .empty
  deriving DecidableEq, Inhabited

namespace Bucket

def isEmpty (b : Bucket) : Bool := b.inputs.isEmpty

/-- Adds an input and reserves an output name that no other input has; an input that is there
already keeps what it has.  The path is the file's in normal form. -/
def addInput (b : Bucket) (file : SourceFile) (path : Path) : Bucket :=
  if b.outputNames.contains path then b
  else
    let output := path.uniqueOutputName b.files.keys
    { b with
      inputs := b.inputs.insert path
      outputNames := b.outputNames.insert path output
      files := b.files.insert output file }

/-- The output name of an input. -/
def outputName (b : Bucket) (path : Path) : String := (b.outputNames.find? path).getD ""

/-- Marks an input whose output is wrapped. -/
def mark (b : Bucket) (path : Path) (delivery : Delivery) : Bucket :=
  match delivery with
  | .module => b
  | .nomodule => { b with nomodule := b.nomodule.insert path }

/-- Records where an output is delivered, unless another one came first. -/
def record (b : Bucket) (destination : String) (condition : Condition) (output : String) : Bucket :=
  { b with
    delivered := b.delivered.alter destination fun old =>
      (old.getD .empty).insertNew condition output }

/-- Adds an input for a destination and condition. -/
def deliver (b : Bucket) (file : SourceFile) (path : Path) (destination : String)
    (condition : Condition) (delivery : Delivery) : Bucket :=
  let added := (b.addInput file path).mark path delivery
  added.record destination condition (added.outputName path)

/-! ### As JSON -/

def fileJson (file : SourceFile) : Json :=
  .object [("path", .string file.path.text), ("source_map", .bool file.sourceMap)]

/-- The bucket as it is shown to other programs. -/
def toJson (b : Bucket) : Json :=
  .object [
    ("package", b.key.toJson),
    ("inputs", Json.strings (b.inputs.toList.map (·.text))),
    ("nomodule", Json.strings (b.nomodule.toList.map (·.text))),
    ("files_by_output_name", .object (b.files.entries.map fun (name, file) => (name, fileJson file))),
    ("delivered", .object (b.delivered.entries.map fun (destination, conditions) =>
      (destination, .object (conditions.entries.map fun (c, output) => (c.key, .string output)))))]

end Bucket

end PackageRouting
