/-
PackageRouting/Proofs/Registry.lean

What the readers of a registry are shown, and the operations that change the
table while it is open.

What a policy admits is said without the way it is computed (`Policy.Admits`).
Subscribers are shown the table package by package, other readers are handed a
list; both see the packages that their policy admits, in the order of the places
(`eligible_eq`, `deliver_eq`).

While the table is open no change of it is refused.  A package is seen at the
place it was registered at and nowhere else; removing a list of places, or all
places but some, does to every look-up what its name says.

Main results: `eligible_eq`, `deliver_eq`, `register_of_discovering`,
`remove_of_discovering`, `retain_of_discovering`, `find?_foldl_erase_stale`,
`entries_foldl_erase_stale`.
-/
import PackageRouting.Proofs.Path.Spelling
import PackageRouting.Proofs.SortedMap
import PackageRouting.Registry

namespace PackageRouting

/-- The package has a name, it is not private unless private ones are included, and no excluded glob
matches its name. -/
def Policy.Admits (policy : Policy) (p : Package) : Prop :=
  ∃ name, p.name = some name ∧ (p.isPrivate → policy.includePrivate) ∧
    ∀ glob ∈ policy.exclude, ¬ glob.isMatch name

theorem Policy.admits_iff {policy : Policy} {p : Package} :
    policy.admits p ↔ policy.Admits p := by
  rw [admits, Admits]
  cases p.name with
  | none => simp
  | some name => cases p.isPrivate <;> simp [admitsName]

instance (policy : Policy) (p : Package) : Decidable (policy.Admits p) :=
  decidable_of_iff _ Policy.admits_iff

namespace Registry

variable {r : Registry}

/-! ### What readers are shown -/

/-- The packages of the table that a policy admits, in the order of the table. -/
def admitted (r : Registry) (policy : Policy) : List Package :=
  (r.toList.map (·.2)).filter fun p => policy.Admits p

/-- **A reader is handed the packages that its policy admits.** -/
theorem eligible_eq (r : Registry) (policy : Policy) : r.eligible policy = r.admitted policy := by
  rw [eligible, admitted]
  congr 1
  funext p
  exact Bool.eq_iff_iff.2 (Policy.admits_iff.trans decide_eq_true_iff.symm)

/-- The table stands in the order of the places. -/
theorem pairwise_toList (r : Registry) :
    (r.toList.map (·.1)).Pairwise (compare · · = .lt) := by
  rw [toList, List.map_map]
  exact List.pairwise_map.2 r.packages.sorted

theorem shown_eq_filter (policy : Policy) (entries : List Registered) :
    shown policy entries = (entries.map (·.package)).filter policy.admits := by
  induction entries with
  | nil => rfl
  | cons entry rest ih => rw [shown, List.map_cons, List.filter_cons, ih]

/-- **A subscriber is shown what any other reader with its policy is handed.** -/
theorem shown_values (r : Registry) (policy : Policy) :
    shown policy r.packages.values = r.eligible policy := by
  rw [shown_eq_filter, SortedMap.values, eligible, toList, List.map_map, List.map_map]
  rfl

theorem serve_eq (entries : List Registered) (subscriptions : List Subscription) :
    serve entries subscriptions =
      (subscriptions.map fun s => { s with delivered := true },
        (subscriptions.filter fun s => !s.delivered).map fun s =>
          ⟨s.id, shown s.policy entries⟩) := by
  induction subscriptions with
  | nil => rfl
  | cons s rest ih =>
    rw [serve, ih, List.map_cons, List.filter_cons]
    by_cases hs : s.delivered
    · have hserved : { s with delivered := true } = s := by rw [← hs]
      simp [hs, hserved]
    · simp [hs]

/-- **All subscriptions count as served, and those that waited get a batch**, in their order. -/
theorem deliver_eq (r : Registry) :
    r.deliver =
      ({ r with subscriptions := r.subscriptions.map fun s => { s with delivered := true } },
        (r.subscriptions.filter fun s => !s.delivered).map fun s =>
          ⟨s.id, r.eligible s.policy⟩) := by
  simp only [deliver, serve_eq, shown_values]

/-! ### Discovery is open -/

theorem register_of_discovering (h : r.phase = .discovering) (location : Path) (p : Package)
    (fingerprint : Option String) :
    r.register location p fingerprint =
      .ok { r with packages := r.packages.insert location ⟨p, fingerprint⟩ } := by
  have hopened : r.opened location = .ok r := by rw [opened, h]
  rw [register, hopened]
  rfl

theorem remove_of_discovering (h : r.phase = .discovering) (location : Path) :
    r.remove location =
      .ok ({ r with packages := r.packages.erase location }, r.get? location) := by
  have hopened : r.opened location = .ok r := by rw [opened, h]
  rw [remove, hopened]
  rfl

theorem removeAll_of_discovering (h : r.phase = .discovering) (locations : List Path) :
    r.removeAll locations =
      .ok { r with packages := locations.foldl SortedMap.erase r.packages } := by
  induction locations generalizing r with
  | nil => rfl
  | cons location rest ih =>
    rw [removeAll, remove_of_discovering h]
    exact ih (r := { r with packages := r.packages.erase location }) h

/-- The registered places that are not kept. -/
def stale (r : Registry) (keep : SortedSet Path) : List Path :=
  r.packages.keys.filter fun location => !keep.contains location

theorem retain_of_discovering (h : r.phase = .discovering) (keep : SortedSet Path) :
    r.retain keep =
      .ok ({ r with packages := (r.stale keep).foldl SortedMap.erase r.packages },
        r.stale keep) := by
  rw [retain]
  show (do return (← r.removeAll (r.stale keep), r.stale keep) : Except RegistryError _) = _
  rw [removeAll_of_discovering h]
  rfl

/-- **The places that are kept, and no others, are left.** -/
theorem find?_foldl_erase_stale (r : Registry) (keep : SortedSet Path) (k : Path) :
    ((r.stale keep).foldl SortedMap.erase r.packages).find? k =
      if keep.contains k then r.packages.find? k else none := by
  rw [SortedMap.find?_foldl_erase]
  by_cases hk : keep.contains k
  · have hstale : (r.stale keep).any (compare k · = .eq) = false := by
      rw [List.any_eq_false]
      intro k' hk' heq
      rw [stale, List.mem_filter] at hk'
      have hcontains := SortedMap.contains_congr keep (of_decide_eq_true heq)
      rw [hk] at hcontains
      rw [← hcontains] at hk'
      simp at hk'
    rw [if_neg (by simp [hstale]), if_pos hk]
  · rw [if_neg hk]
    split
    · rfl
    · next hstale =>
      cases hfind : r.packages.find? k with
      | none => rfl
      | some entry =>
        -- a place that is not kept is stale if anything is registered there
        obtain ⟨k', heq, hmem⟩ := SortedMap.find?_eq_some_iff.1 hfind
        have hk' : keep.contains k' = false := by
          rw [← SortedMap.contains_congr keep heq]
          simpa using hk
        have hmem' : k' ∈ r.stale keep :=
          List.mem_filter.2 ⟨List.mem_map.2 ⟨_, hmem, rfl⟩, by simp [hk']⟩
        exact absurd (List.any_eq_true.2 ⟨k', hmem', by simp [heq]⟩) hstale

/-- What is left stands as it stood before, in the same order. -/
theorem entries_foldl_erase_stale (r : Registry) (keep : SortedSet Path) :
    ((r.stale keep).foldl SortedMap.erase r.packages).entries =
      r.packages.entries.filter fun e => keep.contains e.1 := by
  rw [SortedMap.entries_foldl_erase]
  apply List.filter_congr
  intro e he
  by_cases hkeep : keep.contains e.1
  · rw [hkeep, List.all_eq_true]
    intro k hk
    have hstale : keep.contains k = false := by
      rw [stale, List.mem_filter] at hk
      simpa using hk.2
    -- a place that is not kept has no other spelling that is
    by_contra heq
    have hcontains := SortedMap.contains_congr keep (by simpa using heq : compare k e.1 = .eq)
    rw [hstale, hkeep] at hcontains
    cases hcontains
  · have hmem : e.1 ∈ r.stale keep :=
      List.mem_filter.2 ⟨List.mem_map.2 ⟨e, he, rfl⟩, by simpa using hkeep⟩
    rw [Bool.eq_false_iff.2 hkeep, List.all_eq_false]
    exact ⟨e.1, hmem, by simp⟩

end Registry

end PackageRouting
