/-
PackageRouting/Options.lean

The settings handed to a bundler.  A configuration may override any of them;
what it leaves open gets the default, and a pass in which some file asks for
source maps turns them on.
-/

namespace PackageRouting

/-- The module format of the output. -/
inductive Format where
  | esm
  | cjs
  | iife
  deriving DecidableEq, Repr, Inhabited

/-- The platform that the output runs on. -/
inductive Platform where
  | browser
  | node
  | neutral
  deriving DecidableEq, Repr, Inhabited

/-- How a `default` target of a classic package is delivered. -/
inductive DefaultDelivery where
  /-- As an ES module. -/
  | importModule
  /-- As a classic script. -/
  | script
  deriving DecidableEq, Repr, Inhabited

def Format.name : Format → String
  | esm => "esm"
  | cjs => "cjs"
  | iife => "iife"

def Platform.name : Platform → String
  | browser => "browser"
  | node => "node"
  | neutral => "neutral"

def DefaultDelivery.name : DefaultDelivery → String
  | importModule => "import"
  | script => "script"

/-- The settings that a configuration sets; `none` leaves the default. -/
structure Overrides where
  format : Option Format := none
  target : Option String := none
  platform : Option Platform := none
  bundle : Option Bool := none
  minify : Option Bool := none
  sourcemap : Option Bool := none
  deriving DecidableEq, Repr, Inhabited

/-- The settings of a bundler call. -/
structure Options where
  format : Format := .esm
  /-- The environment aimed at, passed on as it is. -/
  target : String := "esnext"
  platform : Platform := .browser
  /-- Whether imports are followed and inlined. -/
  bundle : Bool := true
  /-- Whether the output is minified; wrapped scripts are then compact too. -/
  minify : Bool := true
  sourcemap : Bool := false
  deriving DecidableEq, Repr, Inhabited

/-- The overrides on top of the defaults.  `sourceMaps` says whether some file of the pass asks
for a source map; it can turn them on but never off. -/
def Options.resolve (o : Overrides) (sourceMaps : Bool) : Options where
  format := o.format.getD ({} : Options).format
  target := o.target.getD ({} : Options).target
  platform := o.platform.getD ({} : Options).platform
  bundle := o.bundle.getD ({} : Options).bundle
  minify := o.minify.getD ({} : Options).minify
  sourcemap := o.sourcemap.getD ({} : Options).sourcemap || sourceMaps

end PackageRouting
