/-
PackageRouting/Registry.lean

The registry of packages, keyed by the place of their manifests.

A pass opens discovery, registers its manifests, completes discovery, and saves.
From completion to the save the table does not change: registering and removing
are refused, so that its readers never see a part of a pass.

A subscriber is handed every package that its policy admits, in one batch: at
once if discovery has completed, and otherwise when it completes.  Operations
return the batches they deliver.  Subscriptions end with the pass.
-/
import PackageRouting.Policy

namespace PackageRouting

/-- Where a registry is in its pass. -/
inductive Phase where
  | idle
  | discovering
  | discovered
  deriving DecidableEq, Repr, Inhabited

def Phase.name : Phase → String
  | idle => "idle"
  | discovering => "discovering"
  | discovered => "discovered"

/-- Why the registry refuses an operation. -/
inductive RegistryError where
  /-- Discovery has completed, so that the table is closed. -/
  | discoveryClosed (location : Path)
  deriving DecidableEq, Repr

namespace RegistryError

def code : RegistryError → String
  | discoveryClosed _ => "REGISTRY_DISCOVERY_CLOSED"

def message : RegistryError → String
  | discoveryClosed location =>
    "cannot register " ++ location.text ++ " after discovery for this pass completed"

end RegistryError

/-- A package, with the fingerprint of the manifest text it came from unless it must be resolved
again. -/
structure Registered where
  package : Package
  fingerprint : Option String
  deriving DecidableEq, Inhabited

/-- A subscriber's wish. -/
structure Subscription where
  id : Nat
  policy : Policy
  delivered : Bool
  deriving DecidableEq, Repr

/-- What a subscriber is handed. -/
structure Batch where
  subscription : Nat
  packages : List Package
  deriving DecidableEq

/-- The registered packages, the subscriptions of the pass, and where the pass stands. -/
structure Registry where
  packages : SortedMap Path Registered := .empty
  subscriptions : List Subscription := []
  phase : Phase := .idle
  /-- The number of the next subscription. -/
  nextId : Nat := 0
  deriving DecidableEq, Inhabited

namespace Registry

/-! ### Reading -/

/-- The registered packages with their places, in the order of the places. -/
def toList (r : Registry) : List (Path × Package) :=
  r.packages.entries.map fun (location, entry) => (location, entry.package)

/-- The packages that a policy admits, in the order of their places. -/
def eligible (r : Registry) (policy : Policy) : List Package :=
  (r.toList.map (·.2)).filter policy.admits

def get? (r : Registry) (location : Path) : Option Package :=
  (r.packages.find? location).map (·.package)

/-- The fingerprint recorded for a place. -/
def fingerprint? (r : Registry) (location : Path) : Option String :=
  (r.packages.find? location).bind (·.fingerprint)

def size (r : Registry) : Nat := r.packages.size

def isEmpty (r : Registry) : Bool := r.packages.isEmpty

/-! ### The pass -/

/-- What a subscriber is shown of the registered packages: one after another, each that the policy
admits. -/
def shown (policy : Policy) : List Registered → List Package
  | [] => []
  | entry :: rest =>
    if policy.admits entry.package then entry.package :: shown policy rest
    else shown policy rest

/-- Serves the subscriptions one after another; those that were served before are passed over. -/
def serve (entries : List Registered) : List Subscription → List Subscription × List Batch
  | [] => ([], [])
  | s :: rest =>
    let (served, batches) := serve entries rest
    if s.delivered then (s :: served, batches)
    else ({ s with delivered := true } :: served, ⟨s.id, shown s.policy entries⟩ :: batches)

/-- Serves the subscriptions that were not served yet. -/
def deliver (r : Registry) : Registry × List Batch :=
  let (served, batches) := serve r.packages.values r.subscriptions
  ({ r with subscriptions := served }, batches)

/-- Opens discovery.  Subscriptions of a pass that was never saved are dropped. -/
def beginDiscovery (r : Registry) : Registry :=
  { r with
    phase := .discovering
    subscriptions := if r.phase = .discovered then [] else r.subscriptions }

/-- Completes discovery and serves the subscribers. -/
def completeDiscovery (r : Registry) : Registry × List Batch :=
  deliver { r with phase := .discovered }

/-- Ends the pass and its subscriptions. -/
def beforeSave (r : Registry) : Registry :=
  { r with phase := .idle, subscriptions := [] }

/-- Subscribes to the packages that a policy admits; returns the number of the subscription. -/
def subscribe (r : Registry) (policy : Policy) : Registry × Nat × List Batch :=
  let added : Registry :=
    { r with
      subscriptions := r.subscriptions ++ [⟨r.nextId, policy, false⟩]
      nextId := r.nextId + 1 }
  let (served, batches) := if r.phase = .discovered then added.deliver else (added, [])
  (served, r.nextId, batches)

/-! ### Changing the table -/

/-- The registry with discovery open, unless the table is closed. -/
def opened (r : Registry) (location : Path) : Except RegistryError Registry :=
  match r.phase with
  | .discovered => .error (.discoveryClosed location)
  | .idle => .ok { r with phase := .discovering }
  | .discovering => .ok r

/-- Puts a package in its place, where it replaces what was there. -/
def register (r : Registry) (location : Path) (p : Package) (fingerprint : Option String) :
    Except RegistryError Registry := do
  let r ← r.opened location
  return { r with packages := r.packages.insert location ⟨p, fingerprint⟩ }

/-- Removes the package of a place, and returns it. -/
def remove (r : Registry) (location : Path) : Except RegistryError (Registry × Option Package) := do
  let r ← r.opened location
  return ({ r with packages := r.packages.erase location }, r.get? location)

/-- Removes the packages of several places. -/
def removeAll (r : Registry) : List Path → Except RegistryError Registry
  | [] => .ok r
  | location :: rest => do
    let (r, _) ← r.remove location
    r.removeAll rest

/-- Removes all packages but those of the given places; returns the places that were removed. -/
def retain (r : Registry) (keep : SortedSet Path) : Except RegistryError (Registry × List Path) := do
  let stale := r.packages.keys.filter fun location => !keep.contains location
  return (← r.removeAll stale, stale)

end Registry

end PackageRouting
