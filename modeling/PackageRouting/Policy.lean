/-
PackageRouting/Policy.lean

Which packages a reader of the registry wants to see: named ones, private ones
only on request, and none whose name matches an excluded glob.
-/
import PackageRouting.Glob
import PackageRouting.Package

namespace PackageRouting

/-- A choice among the registered packages. -/
structure Policy where
  includePrivate : Bool := false
  exclude : List Glob := []
  deriving DecidableEq, Repr, Inhabited

namespace Policy

/-- The policy of a configuration; texts that are no globs exclude nothing. -/
def ofTexts (includePrivate : Bool) (exclude : List String) : Policy where
  includePrivate := includePrivate
  exclude := exclude.filterMap fun text => (Glob.parse text).toOption

/-- Whether a policy admits a package of the given name. -/
def admitsName (policy : Policy) (name : String) (isPrivate : Bool) : Bool :=
  (policy.includePrivate || !isPrivate) && !policy.exclude.any (·.isMatch name)

/-- Whether a policy admits a package. -/
def admits (policy : Policy) (p : Package) : Bool :=
  match p.name with
  | some name => policy.admitsName name p.isPrivate
  | none => false

end Policy

end PackageRouting
