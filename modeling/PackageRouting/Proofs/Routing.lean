/-
PackageRouting/Proofs/Routing.lean

The claims on a file, said without the order in which they are found.

An export yields a destination for a file when its target names the file's
module or, behind a destination pattern, when its wildcard captures the file's
path (`YieldsExact`, `YieldsPattern`).  Exact yields win over pattern yields of
whatever package, and among the packages with a pattern yield the first one
wins (`Routes`).

Main result: `mem_claimsAt_iff` — the claims that the search over all packages,
destinations and conditions finds for a package are exactly the routes.
-/
import Mathlib.Data.Nat.Find
import PackageRouting.Proofs.Path.Spelling
import PackageRouting.Proofs.SortedMap
import PackageRouting.Routing

namespace PackageRouting

/-! ### Bundled conditions -/

namespace Condition

variable {fallback : Option DefaultDelivery} {c : Condition}

/-- The conditions whose targets are bundled. -/
def IsBundled (fallback : Option DefaultDelivery) (c : Condition) : Prop :=
  c = .importModule ∨ c = .script ∨ (c = .default ∧ fallback.isSome)

/-- The conditions whose output runs as a classic script. -/
def IsClassic (fallback : Option DefaultDelivery) (c : Condition) : Prop :=
  c = .script ∨ (c = .default ∧ fallback = some .script)

/-- The conditions that have a delivery are the bundled ones. -/
theorem exists_deliveryFor_iff :
    (∃ delivery, deliveryFor fallback c = some delivery) ↔ c.IsBundled fallback := by
  cases c with
  | importModule => simp [deliveryFor, IsBundled]
  | script => simp [deliveryFor, IsBundled]
  | default => cases fallback <;> simp [deliveryFor, IsBundled]
  | _ => simp [deliveryFor, IsBundled]

/-- The conditions that are delivered as wrapped files are the classic ones. -/
theorem deliveryFor_eq_nomodule_iff :
    deliveryFor fallback c = some .nomodule ↔ c.IsClassic fallback := by
  cases c with
  | importModule => simp [deliveryFor, IsClassic]
  | script => simp [deliveryFor, IsClassic]
  | default =>
    rcases fallback with - | d
    · simp [deliveryFor, IsClassic]
    · cases d <;> simp [deliveryFor, IsClassic]
  | _ => simp [deliveryFor, IsClassic]

end Condition

/-! ### What an export yields -/

namespace ExportsTable

variable {fallback : Option DefaultDelivery} {t : ExportsTable} {p q : Path}

/-- An exact destination whose target under a condition is the file's module. -/
def YieldsExact (t : ExportsTable) (p : Path) (d : String) (c : Condition) : Prop :=
  ∃ entry target, t.exact.find? d = some entry ∧
    entry.find? c = some (.path target) ∧ p.sameModule target

/-- A destination that a pattern key comes to for the file under a condition: the key with the
text that the target's wildcard captures, or the key's own text when the target has no wildcard
and is the file's module. -/
def YieldsPattern (t : ExportsTable) (p : Path) (d : String) (c : Condition) : Prop :=
  ∃ key entry, t.patterns.find? key = some entry ∧
    ((∃ target star, entry.find? c = some (.pattern target) ∧
        target.captureModule? p.toSlash = some star ∧ d = key.substitute star) ∨
      ∃ target, entry.find? c = some (.path target) ∧ p.sameModule target ∧ d = key.text)

/-- Some exact target under a bundled condition is the file's module. -/
def MatchesExact (fallback : Option DefaultDelivery) (t : ExportsTable) (p : Path) : Prop :=
  ∃ d c, c.IsBundled fallback ∧ t.YieldsExact p d c

/-- Some entry of a pattern key matches the file under a bundled condition. -/
def MatchesPattern (fallback : Option DefaultDelivery) (t : ExportsTable) (p : Path) : Prop :=
  ∃ d c, c.IsBundled fallback ∧ t.YieldsPattern p d c

/-- An entry claims a file once for each bundled condition whose target has a destination for it. -/
theorem mem_entryClaims_iff {claim? : Target → Option String} {entry : Entry} {x : Claim} :
    x ∈ entryClaims fallback claim? entry ↔
      deliveryFor fallback x.condition = some x.delivery ∧
        ∃ target, entry.find? x.condition = some target ∧ claim? target = some x.destination := by
  simp only [entryClaims, List.mem_filterMap]
  constructor
  · rintro ⟨⟨c, target⟩, hmem, hx⟩
    simp only [Option.bind_eq_bind, Option.pure_def, Option.bind_eq_some_iff,
      Option.some.injEq] at hx
    obtain ⟨delivery, hdel, destination, hdest, rfl⟩ := hx
    exact ⟨hdel, target, SortedMap.mem_entries_iff.1 hmem, hdest⟩
  · rintro ⟨hdel, target, hfind, hdest⟩
    refine ⟨(x.condition, target), SortedMap.mem_entries_iff.2 hfind, ?_⟩
    simp [hdel, hdest]

/-- An exact key is the destination of the files that are the module of its target. -/
theorem exactMatch?_eq_some_iff {key d : String} {target : Target} :
    exactMatch? p key target = some d ↔
      ∃ path, target = .path path ∧ p.sameModule path ∧ key = d := by
  cases target with
  | path path => by_cases h : p.sameModule path <;> simp [exactMatch?, h]
  | pattern pattern => simp [exactMatch?]

/-- A pattern key has a destination for the files that its target captures, or names. -/
theorem patternMatch?_eq_some_iff {key : Pattern} {d : String} {target : Target} :
    patternMatch? p key target = some d ↔
      (∃ pattern star, target = .pattern pattern ∧
        pattern.captureModule? p.toSlash = some star ∧ d = key.substitute star) ∨
      ∃ path, target = .path path ∧ p.sameModule path ∧ d = key.text := by
  cases target with
  | path path =>
    by_cases h : p.sameModule path
    · simp only [patternMatch?, h, if_true, Option.some.injEq, reduceCtorEq, false_and,
        exists_false, false_or, Target.path.injEq, exists_eq_left', true_and]
      exact eq_comm
    · simp [patternMatch?, h]
  | pattern pattern =>
    simp only [patternMatch?, Option.map_eq_some_iff, Target.pattern.injEq, reduceCtorEq,
      false_and, exists_false, or_false, exists_and_left, exists_eq_left']
    exact exists_congr fun star => and_congr_right fun _ => eq_comm

/-- **The exact claims of a package are what its exact keys yield.** -/
theorem mem_exactClaims_iff {x : Claim} :
    x ∈ t.exactClaims fallback p ↔
      deliveryFor fallback x.condition = some x.delivery ∧
        t.YieldsExact p x.destination x.condition := by
  simp only [exactClaims, List.mem_flatMap, mem_entryClaims_iff, exactMatch?_eq_some_iff]
  constructor
  · rintro ⟨⟨key, entry⟩, hmem, hdel, target, hfind, path, rfl, hsame, rfl⟩
    exact ⟨hdel, entry, path, SortedMap.mem_entries_iff.1 hmem, hfind, hsame⟩
  · rintro ⟨hdel, entry, path, hkey, hfind, hsame⟩
    exact ⟨(x.destination, entry), SortedMap.mem_entries_iff.2 hkey, hdel, .path path, hfind,
      path, rfl, hsame, rfl⟩

/-- **The pattern claims of a package are what its pattern keys yield.** -/
theorem mem_patternClaims_iff {x : Claim} :
    x ∈ t.patternClaims fallback p ↔
      deliveryFor fallback x.condition = some x.delivery ∧
        t.YieldsPattern p x.destination x.condition := by
  simp only [patternClaims, List.mem_flatMap, mem_entryClaims_iff, patternMatch?_eq_some_iff]
  constructor
  · rintro ⟨⟨key, entry⟩, hmem, hdel, target, hfind, h⟩
    refine ⟨hdel, key, entry, SortedMap.mem_entries_iff.1 hmem, ?_⟩
    rcases h with ⟨pattern, star, rfl, h⟩ | ⟨path, rfl, h⟩
    · exact .inl ⟨pattern, star, hfind, h⟩
    · exact .inr ⟨path, hfind, h⟩
  · rintro ⟨hdel, key, entry, hkey, ⟨pattern, star, hfind, h⟩ | ⟨path, hfind, h⟩⟩
    · exact ⟨(key, entry), SortedMap.mem_entries_iff.2 hkey, hdel, _, hfind,
        .inl ⟨pattern, star, rfl, h⟩⟩
    · exact ⟨(key, entry), SortedMap.mem_entries_iff.2 hkey, hdel, _, hfind,
        .inr ⟨path, rfl, h⟩⟩

/-- There is a claim as soon as something is yielded under a bundled condition. -/
theorem claims_ne_nil_iff {l : List Claim} {yields : String → Condition → Prop}
    (h : ∀ x, x ∈ l ↔
      deliveryFor fallback x.condition = some x.delivery ∧ yields x.destination x.condition) :
    l ≠ [] ↔ ∃ d c, c.IsBundled fallback ∧ yields d c := by
  rw [ne_eq, List.eq_nil_iff_forall_not_mem, not_forall_not]
  constructor
  · rintro ⟨x, hx⟩
    obtain ⟨hdel, hy⟩ := (h x).1 hx
    exact ⟨x.destination, x.condition, Condition.exists_deliveryFor_iff.1 ⟨_, hdel⟩, hy⟩
  · rintro ⟨d, c, hc, hy⟩
    obtain ⟨delivery, hdel⟩ := Condition.exists_deliveryFor_iff.2 hc
    exact ⟨⟨d, c, delivery⟩, (h _).2 ⟨hdel, hy⟩⟩

theorem exactClaims_ne_nil_iff :
    t.exactClaims fallback p ≠ [] ↔ t.MatchesExact fallback p :=
  claims_ne_nil_iff fun _ => mem_exactClaims_iff

theorem patternClaims_ne_nil_iff :
    t.patternClaims fallback p ≠ [] ↔ t.MatchesPattern fallback p :=
  claims_ne_nil_iff fun _ => mem_patternClaims_iff

theorem exactMatch?_congr (h : p ≈ q) (d : String) : exactMatch? p d = exactMatch? q d := by
  funext target
  cases target with
  | path path => simp only [exactMatch?, Path.sameModule_congr h]
  | pattern pattern => rfl

theorem patternMatch?_congr (h : p ≈ q) (key : Pattern) :
    patternMatch? p key = patternMatch? q key := by
  funext target
  cases target with
  | path path => simp only [patternMatch?, Path.sameModule_congr h]
  | pattern pattern => simp only [patternMatch?, Path.toSlash_congr h]

/-- The spelling of a path does not matter to its claims. -/
theorem exactClaims_congr (h : p ≈ q) : t.exactClaims fallback p = t.exactClaims fallback q := by
  simp only [exactClaims, exactMatch?_congr h]

theorem patternClaims_congr (h : p ≈ q) :
    t.patternClaims fallback p = t.patternClaims fallback q := by
  simp only [patternClaims, patternMatch?_congr h]

end ExportsTable

/-! ### The first list that is not empty -/

@[simp] theorem length_keepFirst {α : Type} (ls : List (List α)) :
    (keepFirst ls).length = ls.length := by
  induction ls with
  | nil => rfl
  | cons l rest ih =>
    cases l with
    | nil => simp [keepFirst, ih]
    | cons a l => simp [keepFirst]

/-- What is kept at a place: all that was there, if every place before it is empty. -/
theorem mem_keepFirst_iff {α : Type} {ls : List (List α)} {i : Nat} {x : α} :
    x ∈ (keepFirst ls)[i]?.getD [] ↔
      x ∈ ls[i]?.getD [] ∧ ∀ j < i, ls[j]?.getD [] = [] := by
  induction ls generalizing i with
  | nil => simp [keepFirst]
  | cons l rest ih =>
    cases l with
    | nil =>
      -- an empty list is passed over, and the search goes on one place further
      cases i with
      | zero => simp [keepFirst]
      | succ i =>
        simp only [keepFirst, List.getElem?_cons_succ, ih]
        constructor
        · rintro ⟨hx, hj⟩
          refine ⟨hx, fun j hji => ?_⟩
          cases j with
          | zero => rfl
          | succ j => exact hj j (by omega)
        · rintro ⟨hx, hj⟩
          exact ⟨hx, fun j hji => hj (j + 1) (by omega)⟩
    | cons a l =>
      -- the first list that is not empty stays, and empties all that follow
      cases i with
      | zero => simp [keepFirst]
      | succ i =>
        constructor
        · intro hx
          have hnil : (keepFirst ((a :: l) :: rest))[i + 1]?.getD [] = [] := by
            show (rest.map fun _ => [])[i]?.getD [] = []
            rw [List.getElem?_map]
            cases rest[i]? <;> rfl
          rw [hnil] at hx
          cases hx
        · rintro ⟨-, hj⟩
          have h0 : a :: l = [] := hj 0 (by omega)
          cases h0

/-! ### Routes -/

section Routes

variable {fallback : Option DefaultDelivery} {tables : List ExportsTable} {p q : Path} {i : Nat}

/-- No package's exact target is the file's module. -/
def NoExact (fallback : Option DefaultDelivery) (tables : List ExportsTable) (p : Path) : Prop :=
  ∀ t ∈ tables, ¬ t.MatchesExact fallback p

/-- The `i`-th package is the first with a pattern that matches the file. -/
def FirstPattern (fallback : Option DefaultDelivery) (tables : List ExportsTable) (i : Nat)
    (p : Path) : Prop :=
  (∃ t, tables[i]? = some t ∧ t.MatchesPattern fallback p) ∧
    ∀ j < i, ∀ t, tables[j]? = some t → ¬ t.MatchesPattern fallback p

/-- An export of the `i`-th package routes the file to a destination under a condition. -/
def Routes (fallback : Option DefaultDelivery) (tables : List ExportsTable) (i : Nat) (p : Path)
    (d : String) (c : Condition) : Prop :=
  c.IsBundled fallback ∧ ∃ t, tables[i]? = some t ∧
    (t.YieldsExact p d c ∨
      (NoExact fallback tables p ∧ FirstPattern fallback tables i p ∧ t.YieldsPattern p d c))

/-- Whether a claim delivers to a destination under a condition. -/
def Claim.Reaches (x : Claim) (d : String) (c : Condition) : Prop :=
  x.destination = d ∧ x.condition = c

/-- The claims of the `i`-th package on a file. -/
def claimsAt (fallback : Option DefaultDelivery) (tables : List ExportsTable) (p : Path)
    (i : Nat) : List Claim :=
  (claims fallback tables p)[i]?.getD []

@[simp] theorem length_claims : (claims fallback tables p).length = tables.length := by
  simp only [claims]
  split <;> simp

theorem claimsAt_congr (h : p ≈ q) :
    claimsAt fallback tables p i = claimsAt fallback tables q i := by
  simp only [claimsAt, claims, ExportsTable.exactClaims_congr h,
    ExportsTable.patternClaims_congr h]

/-- The search turns to the patterns when no package has an exact claim. -/
theorem noExact_iff :
    NoExact fallback tables p ↔
      (tables.map fun t => t.exactClaims fallback p).all List.isEmpty := by
  simp only [NoExact, ← ExportsTable.exactClaims_ne_nil_iff, not_not, List.all_map,
    List.all_eq_true, Function.comp_apply, List.isEmpty_iff]

/-- Without an exact claim, the first package with a pattern claim has the file. -/
theorem claimsAt_of_noExact (h : NoExact fallback tables p) :
    claimsAt fallback tables p i =
      (keepFirst (tables.map fun t => t.patternClaims fallback p))[i]?.getD [] := by
  rw [claimsAt, claims, if_pos (noExact_iff.1 h)]

/-- With an exact claim, every package has the file that has such a claim itself. -/
theorem claimsAt_of_not_noExact (h : ¬ NoExact fallback tables p) :
    claimsAt fallback tables p i =
      (tables.map fun t => t.exactClaims fallback p)[i]?.getD [] := by
  rw [claimsAt, claims, if_neg (fun h' => h (noExact_iff.2 h'))]

theorem getElem?_map_getD_eq_nil_iff {f : ExportsTable → List Claim} {j : Nat} :
    (tables.map f)[j]?.getD [] = [] ↔ ∀ t, tables[j]? = some t → f t = [] := by
  rw [List.getElem?_map]
  cases tables[j]? <;> simp

theorem mem_getElem?_map_getD_iff {f : ExportsTable → List Claim} {x : Claim} :
    x ∈ (tables.map f)[i]?.getD [] ↔ ∃ t, tables[i]? = some t ∧ x ∈ f t := by
  rw [List.getElem?_map]
  cases tables[i]? <;> simp

/-- **The claims found for a package are exactly its routes.** -/
theorem mem_claimsAt_iff {x : Claim} :
    x ∈ claimsAt fallback tables p i ↔
      deliveryFor fallback x.condition = some x.delivery ∧
        Routes fallback tables i p x.destination x.condition := by
  by_cases h : NoExact fallback tables p
  · -- the patterns decide, and of several packages the first
    have hno : ∀ t, tables[i]? = some t → ∀ d c, c.IsBundled fallback → ¬ t.YieldsExact p d c :=
      fun t ht d c hc hy => h t (List.mem_of_getElem? ht) ⟨d, c, hc, hy⟩
    rw [claimsAt_of_noExact h, mem_keepFirst_iff, mem_getElem?_map_getD_iff]
    simp only [getElem?_map_getD_eq_nil_iff, ExportsTable.mem_patternClaims_iff]
    constructor
    · rintro ⟨⟨t, ht, hdel, hy⟩, hfirst⟩
      have hc : x.condition.IsBundled fallback := Condition.exists_deliveryFor_iff.1 ⟨_, hdel⟩
      refine ⟨hdel, hc, t, ht, .inr ⟨h, ⟨⟨t, ht, _, _, hc, hy⟩, fun j hj u hu hm => ?_⟩, hy⟩⟩
      exact ExportsTable.patternClaims_ne_nil_iff.2 hm (hfirst j hj u hu)
    · rintro ⟨hdel, hc, t, ht, hy | ⟨-, ⟨-, hfirst⟩, hy⟩⟩
      · exact absurd hy (hno t ht _ _ hc)
      · refine ⟨⟨t, ht, hdel, hy⟩, fun j hj u hu => ?_⟩
        by_contra hne
        exact hfirst j hj u hu (ExportsTable.patternClaims_ne_nil_iff.1 hne)
  · -- the exact targets decide, each package's for itself
    rw [claimsAt_of_not_noExact h, mem_getElem?_map_getD_iff]
    simp only [ExportsTable.mem_exactClaims_iff]
    constructor
    · rintro ⟨t, ht, hdel, hy⟩
      exact ⟨hdel, Condition.exists_deliveryFor_iff.1 ⟨_, hdel⟩, t, ht, .inl hy⟩
    · rintro ⟨hdel, -, t, ht, hy | ⟨hno, -⟩⟩
      · exact ⟨t, ht, hdel, hy⟩
      · exact absurd hno h

/-- A package has a claim on a file when an exact target of it is the file's module, or when no
package has such a target and it is the first with a matching pattern. -/
theorem claimsAt_ne_nil_iff :
    claimsAt fallback tables p i ≠ [] ↔
      (∃ t, tables[i]? = some t ∧ t.MatchesExact fallback p) ∨
        (NoExact fallback tables p ∧ FirstPattern fallback tables i p) := by
  rw [ne_eq, List.eq_nil_iff_forall_not_mem, not_forall_not]
  constructor
  · rintro ⟨x, hx⟩
    obtain ⟨-, hc, t, ht, hy | ⟨hno, hfirst, -⟩⟩ := mem_claimsAt_iff.1 hx
    · exact .inl ⟨t, ht, _, _, hc, hy⟩
    · exact .inr ⟨hno, hfirst⟩
  · rintro (⟨t, ht, d, c, hc, hy⟩ | ⟨hno, hfirst⟩)
    · obtain ⟨delivery, hdel⟩ := Condition.exists_deliveryFor_iff.2 hc
      exact ⟨⟨d, c, delivery⟩, mem_claimsAt_iff.2 ⟨hdel, hc, t, ht, .inl hy⟩⟩
    · obtain ⟨t, ht, d, c, hc, hy⟩ := hfirst.1
      obtain ⟨delivery, hdel⟩ := Condition.exists_deliveryFor_iff.2 hc
      exact ⟨⟨d, c, delivery⟩,
        mem_claimsAt_iff.2 ⟨hdel, hc, t, ht, .inr ⟨hno, hfirst, hy⟩⟩⟩

/-- The destinations that the claims of a package reach are those it routes the file to. -/
theorem exists_reaches_iff {d : String} {c : Condition} :
    (∃ x ∈ claimsAt fallback tables p i, x.Reaches d c) ↔
      Routes fallback tables i p d c := by
  constructor
  · rintro ⟨x, hx, rfl, rfl⟩
    exact (mem_claimsAt_iff.1 hx).2
  · intro h
    obtain ⟨delivery, hdel⟩ := Condition.exists_deliveryFor_iff.2 h.1
    exact ⟨⟨d, c, delivery⟩, mem_claimsAt_iff.2 ⟨hdel, h⟩, rfl, rfl⟩

/-- A package wraps the files that it routes somewhere under a classic condition. -/
theorem exists_classic_claim_iff :
    (∃ x ∈ claimsAt fallback tables p i, x.delivery = .nomodule) ↔
      ∃ d c, Routes fallback tables i p d c ∧ c.IsClassic fallback := by
  constructor
  · rintro ⟨x, hx, hdel⟩
    obtain ⟨h, hroute⟩ := mem_claimsAt_iff.1 hx
    rw [hdel] at h
    exact ⟨_, _, hroute, Condition.deliveryFor_eq_nomodule_iff.1 h⟩
  · rintro ⟨d, c, hroute, hc⟩
    exact ⟨⟨d, c, .nomodule⟩,
      mem_claimsAt_iff.2 ⟨Condition.deliveryFor_eq_nomodule_iff.2 hc, hroute⟩, rfl⟩

/-! ### Files that nobody claims -/

/-- At most one package has a file by its patterns. -/
theorem FirstPattern.unique {j : Nat} (hi : FirstPattern fallback tables i p)
    (hj : FirstPattern fallback tables j p) : i = j := by
  obtain ⟨⟨t, ht, hmt⟩, hi⟩ := hi
  obtain ⟨⟨u, hu, hmu⟩, hj⟩ := hj
  rcases Nat.lt_trichotomy i j with h | h | h
  · exact absurd hmt (hj i h t ht)
  · exact h
  · exact absurd hmu (hi j h u hu)

open Classical in
/-- If some package matches a file by a pattern, there is a first one. -/
theorem exists_firstPattern {t : ExportsTable} (ht : t ∈ tables)
    (hm : t.MatchesPattern fallback p) : ∃ i, FirstPattern fallback tables i p := by
  have hex : ∃ (j : Nat) (u : ExportsTable), tables[j]? = some u ∧ u.MatchesPattern fallback p := by
    obtain ⟨i, hi⟩ := List.mem_iff_getElem?.1 ht
    exact ⟨i, t, hi, hm⟩
  refine ⟨Nat.find hex, Nat.find_spec hex, fun j hj u hu hmu => ?_⟩
  exact Nat.find_min hex hj ⟨u, hu, hmu⟩

theorem all_isEmpty_claims_iff :
    (claims fallback tables p).all List.isEmpty ↔ ∀ i, claimsAt fallback tables p i = [] := by
  simp only [List.all_eq_true, List.isEmpty_iff, claimsAt]
  constructor
  · intro h i
    cases hi : (claims fallback tables p)[i]? with
    | none => rfl
    | some l => exact h l (List.mem_of_getElem? hi)
  · intro h l hl
    obtain ⟨i, hi⟩ := List.mem_iff_getElem?.1 hl
    have := h i
    rwa [hi, Option.getD_some] at this

/-- **A file is unclaimed when it matches no export of any package.** -/
theorem forall_claimsAt_eq_nil_iff :
    (∀ i, claimsAt fallback tables p i = []) ↔
      ∀ t ∈ tables, ¬ t.MatchesExact fallback p ∧ ¬ t.MatchesPattern fallback p := by
  constructor
  · intro h
    have hno : NoExact fallback tables p := by
      intro t ht hm
      obtain ⟨i, hi⟩ := List.mem_iff_getElem?.1 ht
      exact claimsAt_ne_nil_iff.2 (.inl ⟨t, hi, hm⟩) (h i)
    refine fun t ht => ⟨hno t ht, fun hm => ?_⟩
    obtain ⟨i, hi⟩ := exists_firstPattern ht hm
    exact claimsAt_ne_nil_iff.2 (.inr ⟨hno, hi⟩) (h i)
  · intro h i
    by_contra hne
    rcases claimsAt_ne_nil_iff.1 hne with ⟨t, ht, hm⟩ | ⟨-, ⟨t, ht, hm⟩, -⟩
    · exact (h t (List.mem_of_getElem? ht)).1 hm
    · exact (h t (List.mem_of_getElem? ht)).2 hm

end Routes

end PackageRouting
