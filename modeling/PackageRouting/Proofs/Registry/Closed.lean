/-
PackageRouting/Proofs/Registry/Closed.lean

What a refused operation leaves behind, and how long the table stays as it is.

A change of several steps is refused at its first step or not at all, because the
first step that succeeds opens discovery for those behind it (`removeAll_eq`).
So every change has one of two ends: it is done, or the registry is what it was
(`register_eq`, `remove_eq`, `retain_eq`).  The table is
closed from completion on, and nothing but a new pass or a save opens it.

Main result: `guarded` (which operations are refused, that these change nothing,
what is left of the others, and that the table does not change while it is read).
-/
import PackageRouting.Proofs.History
import PackageRouting.Proofs.Registry
import PackageRouting.Registry.Operation

namespace PackageRouting

namespace Registry

variable {α β : Type} {r r' : Registry} {location : Path} {locations : List Path} {op : Operation}
  {e : RegistryError}

/-! ### Changes step by step -/

theorem Change.bind_of_ok {change : Change α} {next : α → Change β} {a : α}
    (h : change r = (.ok a, r')) : (change >>= next) r = next a r' := by
  simp [bind, ExceptT.bind, ExceptT.mk, StateT.bind, h, ExceptT.bindCont]

theorem Change.bind_of_error {change : Change α} {next : α → Change β}
    (h : change r = (.error e, r')) : (change >>= next) r = (.error e, r') := by
  simp [bind, ExceptT.bind, ExceptT.mk, StateT.bind, h, ExceptT.bindCont]
  rfl

/-- The change that is done at once, or refused with the registry as it was. -/
def atomically (change : Registry → Except RegistryError (Registry × α)) : Change α :=
  fun r =>
    match change r with
    | .ok (r', a) => (.ok a, r')
    | .error e => (.error e, r)

section Atomically

variable {change : Registry → Except RegistryError (Registry × α)} {a : α}

theorem atomically_of_ok (h : change r = .ok (r', a)) : atomically change r = (.ok a, r') := by
  rw [atomically, h]

theorem atomically_of_error (h : change r = .error e) : atomically change r = (.error e, r) := by
  rw [atomically, h]

end Atomically

theorem register_eq (location : Path) (package : Package) (fingerprint : Option String) :
    Change.register location package fingerprint =
      atomically fun r => (r.register location package fingerprint).map (·, ()) := by
  funext ⟨packages, subscriptions, phase, nextId⟩
  cases phase <;> rfl

theorem remove_eq (location : Path) : Change.remove location = atomically (·.remove location) := by
  funext ⟨packages, subscriptions, phase, nextId⟩
  cases phase <;> rfl

/-- A removal that succeeds leaves discovery open. -/
theorem phase_of_remove {removed : Option Package} (h : r.remove location = .ok (r', removed)) :
    r'.phase = .discovering := by
  obtain ⟨packages, subscriptions, phase, nextId⟩ := r
  cases phase <;> cases h <;> rfl

theorem Change.removeAll_of_discovering (h : r.phase = .discovering) (locations : List Path) :
    Change.removeAll locations r =
      (.ok (), { r with packages := locations.foldl SortedMap.erase r.packages }) := by
  induction locations generalizing r with
  | nil => rfl
  | cons location rest ih =>
    have hremove : Change.remove location r =
        (.ok (r.get? location), { r with packages := r.packages.erase location }) := by
      rw [remove_eq, atomically_of_ok (remove_of_discovering h location)]
    rw [Change.removeAll, Change.bind_of_ok hremove]
    exact ih (r := { r with packages := r.packages.erase location }) h

theorem removeAll_eq (locations : List Path) :
    Change.removeAll locations = atomically fun r => (r.removeAll locations).map (·, ()) := by
  funext r
  cases locations with
  | nil => rfl
  | cons location rest =>
    rw [Change.removeAll]
    cases hremove : r.remove location with
    | error e =>
      have hchange : Change.remove location r = (.error e, r) := by
        rw [remove_eq, atomically_of_error hremove]
      rw [Change.bind_of_error hchange, atomically_of_error]
      rw [Registry.removeAll, hremove]
      rfl
    | ok x =>
      -- the first step has opened discovery, so none behind it is refused
      obtain ⟨r', removed⟩ := x
      have hphase : r'.phase = .discovering := phase_of_remove hremove
      have hchange : Change.remove location r = (.ok removed, r') := by
        rw [remove_eq, atomically_of_ok hremove]
      rw [Change.bind_of_ok hchange, Change.removeAll_of_discovering hphase, atomically_of_ok]
      rw [Registry.removeAll, hremove]
      show (r'.removeAll rest).map (·, ()) = _
      rw [Registry.removeAll_of_discovering hphase]
      rfl

theorem retain_eq_map (r : Registry) (keep : SortedSet Path) :
    r.retain keep = (r.removeAll (r.stale keep)).map (·, r.stale keep) := by
  show (do return (← r.removeAll (r.stale keep), r.stale keep) : Except RegistryError _) = _
  cases r.removeAll (r.stale keep) <;> rfl

theorem retain_eq (keep : SortedSet Path) : Change.retain keep = atomically (·.retain keep) := by
  funext r
  show (Change.removeAll (r.stale keep) >>= fun _ => pure (r.stale keep)) r = _
  have hchange := congrFun (removeAll_eq (r.stale keep)) r
  cases hall : r.removeAll (r.stale keep) with
  | error e =>
    rw [atomically, hall] at hchange
    rw [Change.bind_of_error hchange, atomically_of_error]
    rw [retain_eq_map, hall]
    rfl
  | ok r' =>
    rw [atomically, hall] at hchange
    rw [Change.bind_of_ok hchange, atomically_of_ok]
    rotate_left
    · rw [retain_eq_map, hall]
      rfl
    · rfl

/-! ### Open and closed tables -/

/-- The registry with discovery open and other packages. -/
def reopened (r : Registry) (packages : SortedMap Path Registered) : Registry :=
  { r with phase := .discovering, packages := packages }

theorem opened_of_open (h : r.phase ≠ .discovered) (location : Path) :
    r.opened location = .ok (r.reopened r.packages) := by
  obtain ⟨packages, subscriptions, phase, nextId⟩ := r
  cases phase with
  | discovered => exact absurd rfl h
  | idle => rfl
  | discovering => rfl

theorem opened_of_closed (h : r.phase = .discovered) (location : Path) :
    r.opened location = .error (.discoveryClosed location) := by
  rw [opened, h]

theorem removeAll_of_open (h : r.phase ≠ .discovered) (hne : locations ≠ []) :
    r.removeAll locations = .ok (r.reopened (locations.foldl SortedMap.erase r.packages)) := by
  cases locations with
  | nil => exact absurd rfl hne
  | cons location rest =>
    rw [removeAll, remove, opened_of_open h]
    exact removeAll_of_discovering (r := r.reopened (r.packages.erase location)) rfl rest

theorem retain_of_open (h : r.phase ≠ .discovered) {keep : SortedSet Path}
    (hne : r.stale keep ≠ []) :
    r.retain keep =
      .ok (r.reopened ((r.stale keep).foldl SortedMap.erase r.packages), r.stale keep) := by
  rw [retain_eq_map, removeAll_of_open h hne]
  rfl

theorem retain_of_closed (h : r.phase = .discovered) {keep : SortedSet Path} {rest : List Path}
    (hstale : r.stale keep = location :: rest) :
    r.retain keep = .error (.discoveryClosed location) := by
  rw [retain_eq_map, hstale, removeAll, remove, opened_of_closed h]
  rfl

/-- Where all places are kept, nothing is asked of the phase. -/
theorem retain_of_stale_eq_nil {keep : SortedSet Path} (hstale : r.stale keep = []) :
    r.retain keep = .ok (r, []) := by
  rw [retain_eq_map, hstale]
  rfl

/-! ### Operations -/

theorem outcome_of_ok {change : Registry → Except RegistryError (Registry × α)} {a : α}
    (h : change r = .ok (r', a)) (answer : α → Answer) :
    (atomically change).outcome answer r = { registry := r', answer := .ok (answer a) } := by
  show ({ registry := (atomically change r).2
          answer := (atomically change r).1.map answer } : Outcome) = _
  rw [atomically_of_ok h]
  rfl

theorem outcome_of_error {change : Registry → Except RegistryError (Registry × α)}
    (h : change r = .error e) (answer : α → Answer) :
    (atomically change).outcome answer r = { registry := r, answer := .error e } := by
  show ({ registry := (atomically change r).2
          answer := (atomically change r).1.map answer } : Outcome) = _
  rw [atomically_of_error h]
  rfl

/-- The places that an operation is about to change. -/
def targets (r : Registry) : Operation → List Path
  | .register location _ _ => [location]
  | .remove location => [location]
  | .retain keep => r.stale keep
  | _ => []

/-- **A closed table refuses whatever would change it**, and is what it was. -/
theorem apply_of_closed (h : r.phase = .discovered) {rest : List Path}
    (htargets : r.targets op = location :: rest) :
    r.apply op = { registry := r, answer := .error (.discoveryClosed location) } := by
  cases op with
  | register place package fingerprint =>
    obtain rfl : place = location := (List.cons.inj htargets).1
    rw [apply, register_eq, outcome_of_error]
    rw [register, opened_of_closed h]
    rfl
  | remove place =>
    obtain rfl : place = location := (List.cons.inj htargets).1
    rw [apply, remove_eq, outcome_of_error]
    rw [remove, opened_of_closed h]
    rfl
  | retain keep =>
    rw [apply, retain_eq, outcome_of_error (retain_of_closed h htargets)]
  | beginDiscovery => cases htargets
  | completeDiscovery => cases htargets
  | beforeSave => cases htargets
  | subscribe policy => cases htargets

theorem apply_register_of_open (h : r.phase ≠ .discovered) (location : Path) (package : Package)
    (fingerprint : Option String) :
    r.apply (.register location package fingerprint) =
      { registry := r.reopened (r.packages.insert location ⟨package, fingerprint⟩) } := by
  have hregister : r.register location package fingerprint =
      .ok (r.reopened (r.packages.insert location ⟨package, fingerprint⟩)) := by
    rw [register, opened_of_open h]
    rfl
  rw [apply, register_eq, outcome_of_ok (congrArg (Except.map (·, ())) hregister)]

theorem apply_remove_of_open (h : r.phase ≠ .discovered) (location : Path) :
    r.apply (.remove location) =
      { registry := r.reopened (r.packages.erase location)
        answer := .ok (.removed (r.get? location)) } := by
  have hremove : r.remove location =
      .ok (r.reopened (r.packages.erase location), r.get? location) := by
    rw [remove, opened_of_open h]
    rfl
  rw [apply, remove_eq, outcome_of_ok hremove]

theorem apply_retain_of_open (h : r.phase ≠ .discovered) {keep : SortedSet Path}
    (hne : r.stale keep ≠ []) :
    r.apply (.retain keep) =
      { registry := r.reopened ((r.stale keep).foldl SortedMap.erase r.packages)
        answer := .ok (.dropped (r.stale keep)) } := by
  rw [apply, retain_eq, outcome_of_ok (retain_of_open h hne)]

theorem apply_retain_of_stale_eq_nil {keep : SortedSet Path} (hstale : r.stale keep = []) :
    r.apply (.retain keep) = { registry := r, answer := .ok (.dropped []) } := by
  rw [apply, retain_eq, outcome_of_ok (retain_of_stale_eq_nil hstale)]

/-- The registry with one subscription more, which is not served yet. -/
def subscribed (r : Registry) (policy : Policy) : Registry :=
  { r with
    subscriptions := r.subscriptions ++ [⟨r.nextId, policy, false⟩]
    nextId := r.nextId + 1 }

theorem apply_subscribe_of_open (h : r.phase ≠ .discovered) (policy : Policy) :
    r.apply (.subscribe policy) =
      { registry := r.subscribed policy, answer := .ok (.subscribed r.nextId) } := by
  rw [apply, subscribe, if_neg h]
  rfl

theorem apply_subscribe_of_closed (h : r.phase = .discovered) (policy : Policy) :
    r.apply (.subscribe policy) =
      { registry := (r.subscribed policy).deliver.1
        answer := .ok (.subscribed r.nextId)
        batches := (r.subscribed policy).deliver.2 } := by
  rw [apply, subscribe, if_pos h]
  rfl

/-- An operation that would change a place opens discovery, unless the table is closed. -/
theorem apply_of_open (h : r.phase ≠ .discovered) (htargets : r.targets op ≠ []) :
    ∃ packages answer, r.apply op = { registry := r.reopened packages, answer := .ok answer } := by
  cases op with
  | register location package fingerprint =>
    exact ⟨_, _, apply_register_of_open h location package fingerprint⟩
  | remove location => exact ⟨_, _, apply_remove_of_open h location⟩
  | retain keep => exact ⟨_, _, apply_retain_of_open h htargets⟩
  | beginDiscovery => exact absurd rfl htargets
  | completeDiscovery => exact absurd rfl htargets
  | beforeSave => exact absurd rfl htargets
  | subscribe policy => exact absurd rfl htargets

/-- An operation without such a place is not refused. -/
theorem answer_apply_of_targets_eq_nil (htargets : r.targets op = []) :
    ∃ answer, (r.apply op).answer = .ok answer := by
  cases op with
  | register location package fingerprint => cases htargets
  | remove location => cases htargets
  | retain keep => exact ⟨_, by rw [apply_retain_of_stale_eq_nil htargets]⟩
  | beginDiscovery => exact ⟨_, rfl⟩
  | completeDiscovery => exact ⟨_, rfl⟩
  | beforeSave => exact ⟨_, rfl⟩
  | subscribe policy => exact ⟨_, rfl⟩

/-- **An operation is refused iff the table is closed and there is a place that it would change**;
the refusal names the first. -/
theorem answer_apply_eq_error_iff :
    (r.apply op).answer = .error e ↔ r.phase = .discovered ∧
      ∃ location, (r.targets op).head? = some location ∧ e = .discoveryClosed location := by
  cases htargets : r.targets op with
  | nil =>
    obtain ⟨answer, hanswer⟩ := answer_apply_of_targets_eq_nil htargets
    simp [hanswer]
  | cons location rest =>
    by_cases h : r.phase = .discovered
    · rw [apply_of_closed h htargets]
      simp [h, eq_comm]
    · have hne : r.targets op ≠ [] := by simp [htargets]
      obtain ⟨packages, answer, happly⟩ := apply_of_open h hne
      simp [happly, h]

/-! ### Runs -/

/-- The registry after an operation. -/
def step (r : Registry) (op : Operation) : Registry := (r.apply op).registry

/-- Whether an operation is one that changes the table. -/
def Operation.isChange : Operation → Bool
  | .register _ _ _ => true
  | .remove _ => true
  | .retain _ => true
  | _ => false

/-- The operations: those that change the table, and the others one by one. -/
theorem Operation.isChange_or (op : Operation) : op.isChange ∨ op = .beginDiscovery ∨
    op = .completeDiscovery ∨ op = .beforeSave ∨ ∃ policy, op = .subscribe policy := by
  cases op <;> simp [isChange]

/-- A change leaves the registry as it is, or opens discovery with other packages. -/
theorem apply_of_isChange (h : op.isChange) : (r.apply op).batches = [] ∧
    (r.step op = r ∨ r.phase ≠ .discovered ∧ ∃ packages, r.step op = r.reopened packages) := by
  cases htargets : r.targets op with
  | nil =>
    -- only a removal may have nothing to do
    cases op with
    | retain keep =>
      rw [step, apply_retain_of_stale_eq_nil htargets]
      exact ⟨rfl, .inl rfl⟩
    | register location package fingerprint => cases htargets
    | remove location => cases htargets
    | _ => cases h
  | cons location rest =>
    by_cases hclosed : r.phase = .discovered
    · rw [step, apply_of_closed hclosed htargets]
      exact ⟨rfl, .inl rfl⟩
    · have hne : r.targets op ≠ [] := by simp [htargets]
      obtain ⟨packages, answer, happly⟩ := apply_of_open hclosed hne
      rw [step, happly]
      exact ⟨rfl, .inr ⟨hclosed, packages, rfl⟩⟩

theorem step_of_isChange_of_closed (h : op.isChange) (hclosed : r.phase = .discovered) :
    r.step op = r :=
  (apply_of_isChange h).2.resolve_right fun hopen => hopen.1 hclosed

/-- Whether an operation ends a pass: a save does, and so does the next pass if there was none. -/
def endsPass (r : Registry) : Operation → Bool
  | .beforeSave => true
  | .beginDiscovery => r.phase = .discovered
  | _ => false

theorem endsPass_of_isChange (h : op.isChange) : r.endsPass op = false := by
  cases op <;> first | rfl | cases h

/-- **The table is closed by completion, and until the pass ends.** -/
theorem phase_step_eq_discovered_iff : (r.step op).phase = .discovered ↔
    op = .completeDiscovery ∨ r.phase = .discovered ∧ r.endsPass op = false := by
  rcases op.isChange_or with h | rfl | rfl | rfl | ⟨policy, rfl⟩
  · have hne : op ≠ .completeDiscovery := by
      rintro rfl
      cases h
    rw [endsPass_of_isChange h]
    rcases (apply_of_isChange (r := r) h).2 with hstep | ⟨hopen, packages, hstep⟩
    · simp [hstep, hne]
    · simp [hstep, hne, hopen, reopened]
  · simp [step, apply, beginDiscovery, endsPass]
  · simp [step, apply, completeDiscovery, deliver]
  · simp [step, apply, beforeSave, endsPass]
  · by_cases h : r.phase = .discovered
    · simp [step, apply_subscribe_of_closed h, subscribed, deliver, endsPass]
    · simp [step, apply_subscribe_of_open h, subscribed, endsPass]

/-- A closed table is as it was after every operation. -/
theorem packages_step_of_closed (h : r.phase = .discovered) (op : Operation) :
    (r.step op).packages = r.packages := by
  rcases op.isChange_or with hchange | rfl | rfl | rfl | ⟨policy, rfl⟩
  · rw [step_of_isChange_of_closed hchange h]
  · rfl
  · rfl
  · rfl
  · rw [step, apply_subscribe_of_closed h]
    rfl

/-- What a registry promises the readers of its table. -/
structure Guarded (r : Registry) : Prop where
  /-- An operation is refused iff the table is closed and there is a place it would change. -/
  refused_iff : ∀ op e, (r.apply op).answer = .error e ↔ r.phase = .discovered ∧
    ∃ location, (r.targets op).head? = some location ∧ e = .discoveryClosed location
  /-- A refused operation changes nothing, and calls no subscriber. -/
  unchanged : ∀ op e, (r.apply op).answer = .error e →
    (r.apply op).registry = r ∧ (r.apply op).batches = []
  /-- What is kept stands as it stood before, and the places of the rest are returned. -/
  retained : ∀ keep locations, (r.apply (.retain keep)).answer = .ok (.dropped locations) →
    (r.apply (.retain keep)).registry.packages.entries =
        r.packages.entries.filter (fun e => keep.contains e.1) ∧
      locations = r.packages.keys.filter fun location => !keep.contains location
  /-- From completion on the table is the same, until a new pass begins or the pass is saved. -/
  frozen : ∀ ops, Operation.beginDiscovery ∉ ops → Operation.beforeSave ∉ ops →
    ∀ i, (History.stateAt step r.completeDiscovery.1 ops i).packages = r.packages

/-- **The table does not change while it is read, and a refused operation changes nothing.** -/
theorem guarded (r : Registry) : r.Guarded where
  refused_iff _ _ := answer_apply_eq_error_iff
  unchanged op e herror := by
    obtain ⟨hclosed, location, hhead, rfl⟩ := answer_apply_eq_error_iff.1 herror
    obtain ⟨rest, htargets⟩ := List.head?_eq_some_iff.1 hhead
    rw [apply_of_closed hclosed htargets]
    exact ⟨rfl, rfl⟩
  retained keep locations hanswer := by
    rw [← entries_foldl_erase_stale]
    by_cases hstale : r.stale keep = []
    · rw [apply_retain_of_stale_eq_nil hstale] at hanswer ⊢
      cases hanswer
      rw [hstale]
      exact ⟨rfl, hstale.symm⟩
    · by_cases h : r.phase = .discovered
      · -- the places that are not kept would have been refused
        obtain ⟨location, rest, hcons⟩ := List.exists_cons_of_ne_nil hstale
        have hclosed : r.apply (.retain keep) = _ := apply_of_closed h hcons
        rw [hclosed] at hanswer
        cases hanswer
      · rw [apply_retain_of_open h hstale] at hanswer ⊢
        cases hanswer
        exact ⟨rfl, rfl⟩
  frozen ops hbegin hsave i := by
    suffices h : (History.stateAt step r.completeDiscovery.1 ops i).packages = r.packages ∧
        (History.stateAt step r.completeDiscovery.1 ops i).phase = .discovered from h.1
    refine History.stateAt_of_step
      (P := fun s : Registry => s.packages = r.packages ∧ s.phase = .discovered) ?_ ?_ i
    · exact ⟨rfl, rfl⟩
    rintro s ⟨hpackages, hphase⟩ op hop
    have hends : s.endsPass op = false := by
      cases op with
      | beginDiscovery => exact absurd hop hbegin
      | beforeSave => exact absurd hop hsave
      | _ => rfl
    exact ⟨(packages_step_of_closed hphase op).trans hpackages,
      phase_step_eq_discovered_iff.2 (.inr ⟨hphase, hends⟩)⟩

end Registry

end PackageRouting
