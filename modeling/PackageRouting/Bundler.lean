/-
PackageRouting/Bundler.lean

The seam to a bundler: a request for each bucket, and what comes back.

A bundler may hand out a token with its answer, which it is given back with the
next request for the same bucket.  What is in a token is the bundler's own
affair, so its type is a parameter.
-/
import PackageRouting.Options
import PackageRouting.Output

namespace PackageRouting

/-- A bundler call. -/
structure Request (τ : Type) where
  bucket : BucketKey
  /-- The entry files, in order. -/
  inputs : List Path
  /-- The output names that are reserved for inputs; the bundler names the others. -/
  outputNames : SortedMap Path String
  /-- The directory of the bucket's outputs. -/
  outDir : Path
  options : Options
  /-- The token of the previous answer for the bucket. -/
  cache : Option τ

/-- A bundler's answer. -/
structure Emitted (τ : Type) where
  chunks : List Chunk := []
  assets : List Asset := []
  cache : Option τ := none

/-- A bundler's failure. -/
structure BundlerError where
  message : String
  /-- The file that is to blame, when it is known. -/
  path : Option Path := none
  deriving DecidableEq, Repr

def BundlerError.code : String := "BUNDLER_INVOCATION_FAILED"

/-- A bundler. -/
abbrev Bundler (τ : Type) := Request τ → Except BundlerError (Emitted τ)

end PackageRouting
