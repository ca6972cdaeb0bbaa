/-
PackageRouting/Registry/Operation.lean

Operations on a registry that is changed where it stands.

An operation of several steps may be refused at any of them, and what the steps
before it did to the registry is not undone.  A `Change` therefore ends with a
registry whether it succeeds or not, so that it can be asked what a refusal
leaves behind.
-/
import PackageRouting.Registry

namespace PackageRouting

namespace Registry

/-- A computation that changes a registry step by step.  An error ends it and undoes nothing. -/
abbrev Change (α : Type) := ExceptT RegistryError (StateM Registry) α

namespace Change

/-- Opens discovery, unless the table is closed. -/
def ensureOpen (location : Path) : Change Unit := do
  match (← get).phase with
  | .discovered => throw (.discoveryClosed location)
  | .idle => modify fun r => { r with phase := .discovering }
  | .discovering => return ()

/-- Puts a package in its place, where it replaces what was there. -/
def register (location : Path) (package : Package) (fingerprint : Option String) :
    Change Unit := do
  ensureOpen location
  modify fun r => { r with packages := r.packages.insert location ⟨package, fingerprint⟩ }

/-- Removes the package of a place, and returns it. -/
def remove (location : Path) : Change (Option Package) := do
  ensureOpen location
  let removed := (← get).get? location
  modify fun r => { r with packages := r.packages.erase location }
  return removed

/-- Removes the packages of several places, one after another. -/
def removeAll : List Path → Change Unit
  | [] => return ()
  | location :: rest => do
    let _ ← remove location
    removeAll rest

/-- Removes all packages but those of the given places; returns the places that were removed. -/
def retain (keep : SortedSet Path) : Change (List Path) := do
  let stale := (← get).packages.keys.filter fun location => !keep.contains location
  removeAll stale
  return stale

end Change

/-- What may be asked of a registry that changes it or calls its subscribers. -/
inductive Operation where
  | beginDiscovery
  | register (location : Path) (package : Package) (fingerprint : Option String)
  | remove (location : Path)
  | retain (keep : SortedSet Path)
  | completeDiscovery
  | beforeSave
  | subscribe (policy : Policy)

/-- What a caller is told. -/
inductive Answer where
  | done
  /-- The package that was removed, if there was one. -/
  | removed (package : Option Package)
  | dropped (locations : List Path)
  | subscribed (id : Nat)

/-- What comes of an operation. -/
structure Outcome where
  registry : Registry
  answer : Except RegistryError Answer := .ok .done
  /-- What subscribers are handed in the course of it. -/
  batches : List Batch := []

/-- What comes of a change, where subscribers are not called. -/
def Change.outcome {α : Type} (change : Change α) (answer : α → Answer) (r : Registry) : Outcome :=
  let (result, r) := change.run.run r
  { registry := r, answer := result.map answer }

def apply (r : Registry) : Operation → Outcome
  | .beginDiscovery => { registry := r.beginDiscovery }
  | .register location package fingerprint =>
    (Change.register location package fingerprint).outcome (fun () => .done) r
  | .remove location => (Change.remove location).outcome .removed r
  | .retain keep => (Change.retain keep).outcome .dropped r
  | .completeDiscovery =>
    let (r, batches) := r.completeDiscovery
    { registry := r, batches := batches }
  | .beforeSave => { registry := r.beforeSave }
  | .subscribe policy =>
    let (r, id, batches) := r.subscribe policy
    { registry := r, answer := .ok (.subscribed id), batches := batches }

end Registry

end PackageRouting
