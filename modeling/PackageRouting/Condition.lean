/-
PackageRouting/Condition.lean

How an export is delivered.  A manifest names the way by a condition key; a few
keys drive bundling and the rest is kept for other readers of the table.  The
order of the conditions is the order of their kinds, unknown keys last and
sorted by their text.

In a module package an unconditioned target is an ES module, so `default` is
read there as `import`.
-/

namespace PackageRouting

open Std

/-- The way an export target is delivered. -/
inductive Condition where
  /-- An ES module entry. -/
  | importModule
  /-- A classic script entry. -/
  | script
  /-- A fallback for any way. -/
  | default
  | types
  | asset
  | style
  | sass
  /-- Any other key. -/
  | other (key : String)
  deriving DecidableEq, Repr, Inhabited

/-- What a manifest says about the package's scripts. -/
inductive ModuleType where
  /-- The package is made of ES modules. -/
  | module
  /-- Anything else. -/
  | classic
  deriving DecidableEq, Repr, Inhabited

namespace Condition

/-- The condition that a key names. -/
def ofKey : String → Condition
  | "import" => importModule
  | "script" => script
  | "default" => default
  | "types" => types
  | "asset" => asset
  | "style" => style
  | "sass" => sass
  | key => other key

/-- The key of a condition. -/
def key : Condition → String
  | importModule => "import"
  | script => "script"
  | default => "default"
  | types => "types"
  | asset => "asset"
  | style => "style"
  | sass => "sass"
  | other key => key

instance : ToString Condition := ⟨key⟩

/-- The kind of a condition, as its place in the order. -/
def rank : Condition → Nat
  | importModule => 0
  | script => 1
  | default => 2
  | types => 3
  | asset => 4
  | style => 5
  | sass => 6
  | other _ => 7

instance : Ord Condition where
  compare := compareLex (compareOn rank) (compareOn key)

instance : TransOrd Condition :=
  inferInstanceAs (TransCmp (compareLex (compareOn rank) (compareOn key)))

instance : LawfulEqOrd Condition where
  eq_of_compare {a b} h := by
    replace h : compareLex (compareOn rank) (compareOn key) a b = .eq := h
    rw [compareLex_eq_eq] at h
    obtain ⟨hr, hk⟩ := h
    replace hr : rank a = rank b := LawfulEqOrd.eq_of_compare hr
    replace hk : key a = key b := LawfulEqOrd.eq_of_compare hk
    cases a <;> cases b <;> simp_all [rank, key]

/-- Whether a condition has a kind of its own. -/
def isKnown : Condition → Bool
  | other _ => false
  | _ => true

/-- The condition as a package of the given type means it. -/
def remapDefault (moduleType : ModuleType) : Condition → Condition
  | default => if moduleType = .module then importModule else default
  | c => c

/-- **A key is read back from its condition.** -/
theorem key_ofKey (k : String) : (ofKey k).key = k := by
  unfold ofKey
  split <;> rfl

end Condition

namespace ModuleType

/-- The type that the manifest's `type` field declares. -/
def ofField (field : Option String) : ModuleType :=
  if field = some "module" then module else classic

/-- The condition of a target that is given without one. -/
def defaultCondition (t : ModuleType) : Condition := Condition.default.remapDefault t

end ModuleType

end PackageRouting
