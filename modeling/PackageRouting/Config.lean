/-
PackageRouting/Config.lean

Pipeline configurations and their files.

A configuration file is a JSON record; every field may be left out, and unknown
keys are passed over.
-/
import PackageRouting.Disk.Script
import PackageRouting.Json.Record
import PackageRouting.Options
import PackageRouting.Path.Basic
import PackageRouting.Text.Utf8

namespace PackageRouting

/-- The settings of a pipeline. -/
structure Config where
  /-- The directory of all output; a package's output goes into a directory of its name there. -/
  outDir : Path := ⟨"_site"⟩
  /-- Whether private packages are bundled too. -/
  includePrivate : Bool := false
  /-- Globs for the names of packages that are not bundled. -/
  exclude : List String := []
  /-- How a `default` target is delivered; without it such targets are not bundled. -/
  exportsDefault : Option DefaultDelivery := none
  /-- Whether bundlers' tokens are kept between passes. -/
  incremental : Bool := false
  overrides : Overrides := {}
  deriving DecidableEq, Repr, Inhabited

/-- Why a configuration cannot be had. -/
inductive ConfigError where
  | read (path : Path) (reason : DiskError)
  | parse (path : Path) (reason : Json.ReadError)
  deriving DecidableEq, Repr

namespace ConfigError

def code : ConfigError → String
  | _ => "CONFIG_INVALID"

def message : ConfigError → String
  | read path reason => "Failed to read config at " ++ path.text ++ ": " ++ reason.message
  | parse path reason => "Failed to parse config at " ++ path.text ++ ": " ++ reason.message

end ConfigError

/-! ### Records -/

def Format.variants : List (String × Format) := [Format.esm, .cjs, .iife].map fun f => (f.name, f)

def Platform.variants : List (String × Platform) :=
  [Platform.browser, .node, .neutral].map fun p => (p.name, p)

def DefaultDelivery.variants : List (String × DefaultDelivery) :=
  [DefaultDelivery.importModule, .script].map fun d => (d.name, d)

open Json (asString asBool asList asOption asVariant)

/-- The record of bundler settings. -/
def Overrides.kind : Json.RecordKind Overrides where
  title := "struct BuildOverrides"
  fields := [
    ⟨"format", fun o => return { o with format := ← asOption (asVariant Format.variants) }⟩,
    ⟨"target", fun o => return { o with target := ← asOption (asString "a string") }⟩,
    ⟨"platform", fun o => return { o with platform := ← asOption (asVariant Platform.variants) }⟩,
    ⟨"bundle", fun o => return { o with bundle := ← asOption asBool }⟩,
    ⟨"minify", fun o => return { o with minify := ← asOption asBool }⟩,
    ⟨"sourcemap", fun o => return { o with sourcemap := ← asOption asBool }⟩]

/-- Reads bundler settings from a JSON text. -/
def Overrides.parse (text : String) : Except Json.ReadError Overrides :=
  Json.Reader.readText (Overrides.kind.read {}) text

namespace Config

/-- The record of a configuration. -/
def kind : Json.RecordKind Config where
  title := "struct PipelineConfig"
  fields := [
    ⟨"outDir", fun c => return { c with outDir := ⟨← asString "path string"⟩ }⟩,
    ⟨"includePrivate", fun c => return { c with includePrivate := ← asBool }⟩,
    ⟨"exclude", fun c => return { c with exclude := ← asList (asString "a string") }⟩,
    ⟨"exportsDefault", fun c =>
      return { c with exportsDefault := ← asOption (asVariant DefaultDelivery.variants) }⟩,
    ⟨"incremental", fun c => return { c with incremental := ← asBool }⟩,
    ⟨"overrides", fun c => return { c with overrides := ← Overrides.kind.read {} }⟩]

/-- Reads a configuration from a JSON text. -/
def parse (text : String) : Except Json.ReadError Config :=
  Json.Reader.readText (kind.read {}) text

/-- Reads a configuration from the bytes of its file. -/
def ofBytes (path : Path) (bytes : List UInt8) : Except ConfigError Config :=
  match Text.decode? bytes with
  | none => .error (.read path .notUtf8)
  | some text => (parse text).mapError (.parse path)

end Config

/-- Loads a configuration file. -/
def Script.loadConfig (path : Path) : Script (Except ConfigError Config) := do
  match ← read path with
  | .error e => return .error (.read path e)
  | .ok bytes => return Config.ofBytes path bytes

end PackageRouting
