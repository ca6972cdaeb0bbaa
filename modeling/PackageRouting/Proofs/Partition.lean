/-
PackageRouting/Proofs/Partition.lean

Where the files of a pass go, and what is delivered from where.

Although files are added one after another, each bucket depends on its own
claims only: the bucket of the `i`-th package is filled with the `i`-th claims
on each file (`packages_ofPackages`), and the shared bucket with the files that
nobody claims (`shared_ofPackages`).  What is known of a single bucket and of a
single file's claims then says where every file goes.

Main results: `inputs_ofRegistry` (routing is exact, no file is lost, and the
shared bucket is disjoint from all others), `deliveries_ofRegistry` (a delivery
is the output of the earliest file that is routed to it), and
`ofRegistry_congr` (the partition depends on names and tables only).
-/
import Mathlib.Data.List.Nodup
import PackageRouting.Proofs.Bucket
import PackageRouting.Proofs.Package
import PackageRouting.Proofs.Registry

namespace PackageRouting

namespace Partition

variable {fallback : Option DefaultDelivery} {tables : List ExportsTable}
variable {files : List SourceFile} {P : Partition} {i : Nat} {p q : Path}

/-! ### The packages of a pass -/

/-- A list of packages with their names that takes, of another list, the first package of each
name, in the order of that list. -/
structure FirstOfEachName (l : List Package) (named : List (String × Package)) : Prop where
  sublist : (named.map (·.2)).Sublist l
  nodup : (named.map (·.1)).Nodup
  mem_iff : ∀ name pkg, (name, pkg) ∈ named ↔ IsFirst (fun p => p.name = some name) l pkg

theorem mem_firstOfEachName_iff {l : List Package} {name : String} {pkg : Package} :
    (name, pkg) ∈ firstOfEachName l ↔ IsFirst (fun p => p.name = some name) l pkg := by
  induction l with
  | nil => simp [firstOfEachName, not_isFirst_nil]
  | cons a rest ih =>
    rw [isFirst_cons, firstOfEachName]
    cases ha : a.name with
    | none => simp [ih]
    | some n =>
      simp only [List.mem_cons, Prod.mk.injEq, List.mem_filter, ih, Option.some.injEq,
        decide_not, Bool.not_eq_true', decide_eq_false_iff_not]
      constructor
      · rintro (⟨rfl, rfl⟩ | ⟨hfirst, hne⟩)
        · exact .inl ⟨rfl, rfl⟩
        · exact .inr ⟨Ne.symm hne, hfirst⟩
      · rintro (⟨rfl, rfl⟩ | ⟨hne, hfirst⟩)
        · exact .inl ⟨rfl, rfl⟩
        · exact .inr ⟨hfirst, Ne.symm hne⟩

theorem sublist_firstOfEachName (l : List Package) :
    ((firstOfEachName l).map (·.2)).Sublist l := by
  induction l with
  | nil => exact .slnil
  | cons a rest ih =>
    rw [firstOfEachName]
    cases a.name with
    | none => exact ih.cons a
    | some n => exact ((List.filter_sublist.map _).trans ih).cons_cons a

theorem nodup_firstOfEachName (l : List Package) : ((firstOfEachName l).map (·.1)).Nodup := by
  induction l with
  | nil => exact List.nodup_nil
  | cons a rest ih =>
    rw [firstOfEachName]
    cases a.name with
    | none => exact ih
    | some n =>
      refine List.nodup_cons.2 ⟨?_, (List.filter_sublist.map _).nodup ih⟩
      intro hmem
      obtain ⟨x, hx, hn⟩ := List.mem_map.1 hmem
      simp [hn] at hx

theorem firstOfEachName_spec (l : List Package) : FirstOfEachName l (firstOfEachName l) where
  sublist := sublist_firstOfEachName l
  nodup := nodup_firstOfEachName l
  mem_iff _ _ := mem_firstOfEachName_iff

/-! ### One bucket at a time -/

theorem length_packages_addFile (h : P.packages.length = tables.length) (f : SourceFile) :
    (addFile fallback tables P f).packages.length = tables.length := by
  simp [addFile, h]

theorem packages_addFile (h : P.packages.length = tables.length) (f : SourceFile) :
    (addFile fallback tables P f).packages[i]? =
      P.packages[i]?.map fun b =>
        addClaims f f.path.normalize b (claimsAt fallback tables f.path.normalize i) := by
  rw [addFile, List.getElem?_zipWith]
  cases hb : P.packages[i]? with
  | none => rfl
  | some b =>
    have hi : i < (claims fallback tables f.path.normalize).length := by
      rw [length_claims, ← h]
      exact (List.getElem?_eq_some_iff.1 hb).1
    simp [claimsAt, List.getElem?_eq_getElem hi]

/-- Adding files fills each package's bucket with the package's claims. -/
theorem packages_foldl_addFile (h : P.packages.length = tables.length) :
    (files.foldl (addFile fallback tables) P).packages[i]? =
      P.packages[i]?.map fun b =>
        b.fill (fun f => claimsAt fallback tables f.path.normalize i) files := by
  induction files generalizing P with
  | nil => cases hb : P.packages[i]? <;> simp [hb, Bucket.fill]
  | cons f rest ih =>
    rw [List.foldl_cons, ih (length_packages_addFile h f), packages_addFile h]
    cases P.packages[i]? <;> rfl

/-- Whether no package claims a file. -/
def isUnclaimed (fallback : Option DefaultDelivery) (tables : List ExportsTable)
    (f : SourceFile) : Bool :=
  (claims fallback tables f.path.normalize).all List.isEmpty

/-- Adding files adds the unclaimed ones to the shared bucket. -/
theorem shared_foldl_addFile :
    (files.foldl (addFile fallback tables) P).shared =
      P.shared.addAll (files.filter (isUnclaimed fallback tables)) := by
  induction files generalizing P with
  | nil => rfl
  | cons f rest ih =>
    rw [List.foldl_cons, ih, List.filter_cons]
    by_cases hf : isUnclaimed fallback tables f
    · have hadd : (addFile fallback tables P f).shared = P.shared.addInput f f.path.normalize :=
        if_pos hf
      rw [if_pos hf, hadd]
      rfl
    · have hkeep : (addFile fallback tables P f).shared = P.shared := if_neg hf
      rw [if_neg hf, hkeep]

variable {packages : List (String × Package)}

/-- The tables of packages with their names. -/
def tablesOf (packages : List (String × Package)) : List ExportsTable :=
  packages.map (·.2.exports)

/-- **The bucket of a package is filled with the package's own claims.** -/
theorem packages_ofPackages :
    (ofPackages fallback packages files).packages[i]? =
      packages[i]?.map fun a => ({ key := .package a.1 } : Bucket).fill
        (fun f => claimsAt fallback (tablesOf packages) f.path.normalize i) files := by
  rw [ofPackages, packages_foldl_addFile (by simp [start])]
  simp only [start, List.getElem?_map, Option.map_map]
  rfl

theorem shared_ofPackages :
    (ofPackages fallback packages files).shared =
      ({ key := .shared } : Bucket).addAll
        (files.filter (isUnclaimed fallback (tablesOf packages))) :=
  shared_foldl_addFile

theorem keys_packages_ofPackages :
    (ofPackages fallback packages files).packages.map (·.key) =
      packages.map fun a => .package a.1 := by
  apply List.ext_getElem?
  intro i
  simp only [List.getElem?_map, packages_ofPackages, Option.map_map]
  congr 1
  funext a
  exact Bucket.key_fill

/-- Two packages' buckets of one name are one bucket. -/
theorem eq_of_key_eq {r : Registry} {policy : Policy} {b b' : Bucket}
    (hb : b ∈ (ofRegistry r files policy fallback).packages)
    (hb' : b' ∈ (ofRegistry r files policy fallback).packages) (h : b.key = b'.key) : b = b' := by
  have hnames := nodup_firstOfEachName (r.eligible policy)
  have hkeys : ((ofRegistry r files policy fallback).packages.map (·.key)).Nodup := by
    rw [ofRegistry, keys_packages_ofPackages, ← Function.comp_def BucketKey.package, ← List.map_map]
    exact List.Nodup.map (fun _ _ => BucketKey.package.inj) hnames
  exact List.inj_on_of_nodup_map hkeys hb hb' h

/-! ### Where a file goes -/

section Inputs

variable {b : Bucket}

/-- An input of a package's bucket is a file of the pass on which the package has a claim. -/
theorem contains_inputs_packages
    (hb : (ofPackages fallback packages files).packages[i]? = some b) :
    b.inputs.contains q ↔
      (∃ f ∈ files, q ≈ f.path.normalize) ∧ claimsAt fallback (tablesOf packages) q i ≠ [] := by
  rw [packages_ofPackages, Option.map_eq_some_iff] at hb
  obtain ⟨a, -, rfl⟩ := hb
  rw [Bucket.contains_inputs_fill (Bucket.aligned_empty _)]
  have hempty : ¬ ({ key := .package a.1 } : Bucket).inputs.contains q := by
    simp [SortedMap.contains, SortedMap.find?_empty]
  constructor
  · rintro (⟨f, hf, hne, hq⟩ | h)
    · exact ⟨⟨f, hf, hq⟩, by rwa [claimsAt_congr hq]⟩
    · exact absurd h hempty
  · rintro ⟨⟨f, hf, hq⟩, hne⟩
    exact .inl ⟨f, hf, by rwa [← claimsAt_congr hq], hq⟩

/-- An input of the shared bucket is a file of the pass on which nobody has a claim. -/
theorem contains_inputs_shared :
    (ofPackages fallback packages files).shared.inputs.contains q ↔
      (∃ f ∈ files, q ≈ f.path.normalize) ∧
        ∀ i, claimsAt fallback (tablesOf packages) q i = [] := by
  rw [shared_ofPackages, Bucket.contains_inputs_addAll (Bucket.aligned_empty _)]
  have hempty : ¬ ({ key := .shared } : Bucket).inputs.contains q := by
    simp [SortedMap.contains, SortedMap.find?_empty]
  constructor
  · rintro (⟨f, hf, hq⟩ | h)
    · obtain ⟨hf, hun⟩ := List.mem_filter.1 hf
      refine ⟨⟨f, hf, hq⟩, fun i => ?_⟩
      rw [claimsAt_congr hq]
      exact all_isEmpty_claims_iff.1 hun i
    · exact absurd h hempty
  · rintro ⟨⟨f, hf, hq⟩, hnil⟩
    refine .inl ⟨f, List.mem_filter.2 ⟨hf, all_isEmpty_claims_iff.2 fun i => ?_⟩, hq⟩
    rw [← claimsAt_congr hq]
    exact hnil i

/-- Every input is the normal form of a listed file's path. -/
theorem exists_file_of_mem_inputs (hb : b ∈ (ofPackages fallback packages files).buckets)
    (hq : q ∈ b.inputs.toList) : ∃ f ∈ files, q = f.path.normalize := by
  rcases List.mem_append.1 hb with hb | hb
  · obtain ⟨i, hi⟩ := List.mem_iff_getElem?.1 hb
    rw [packages_ofPackages, Option.map_eq_some_iff] at hi
    obtain ⟨a, -, rfl⟩ := hi
    rcases Bucket.mem_inputs_fill hq with h | h
    · exact h
    · cases h
  · obtain rfl := List.mem_singleton.1 hb
    rw [shared_ofPackages] at hq
    rcases Bucket.mem_inputs_addAll hq with ⟨f, hf, hq⟩ | h
    · exact ⟨f, (List.mem_filter.1 hf).1, hq⟩
    · cases h

/-- No file is lost. -/
theorem exists_bucket_of_mem {f : SourceFile} (hf : f ∈ files) :
    ∃ b ∈ (ofPackages fallback packages files).buckets, b.inputs.contains f.path.normalize := by
  have hlisted : ∃ g ∈ files, f.path.normalize ≈ g.path.normalize :=
    ⟨f, hf, Path.equiv_refl _⟩
  by_cases h : ∀ i, claimsAt fallback (tablesOf packages) f.path.normalize i = []
  · exact ⟨_, List.mem_append_right _ (List.mem_singleton_self _),
      contains_inputs_shared.2 ⟨hlisted, h⟩⟩
  · obtain ⟨i, hi⟩ := not_forall.1 h
    cases hb : (ofPackages fallback packages files).packages[i]? with
    | none =>
      -- behind the last package there is no claim
      rw [packages_ofPackages, Option.map_eq_none_iff, List.getElem?_eq_none_iff] at hb
      refine absurd ?_ hi
      rw [claimsAt, List.getElem?_eq_none (by simpa [tablesOf] using hb), Option.getD_none]
    | some b =>
      exact ⟨b, List.mem_append_left _ (List.mem_of_getElem? hb),
        (contains_inputs_packages hb).2 ⟨hlisted, hi⟩⟩

/-- A file in the buckets of two packages is in both because of exact targets. -/
theorem matchesExact_of_contains_two {b' : Bucket} {j : Nat} (hij : i ≠ j)
    (hb : (ofPackages fallback packages files).packages[i]? = some b)
    (hb' : (ofPackages fallback packages files).packages[j]? = some b')
    (hq : b.inputs.contains q) (hq' : b'.inputs.contains q) :
    (∃ t, (tablesOf packages)[i]? = some t ∧ t.MatchesExact fallback q) ∧
      ∃ t, (tablesOf packages)[j]? = some t ∧ t.MatchesExact fallback q := by
  have hi := claimsAt_ne_nil_iff.1 ((contains_inputs_packages hb).1 hq).2
  have hj := claimsAt_ne_nil_iff.1 ((contains_inputs_packages hb').1 hq').2
  rcases hi with ⟨t, ht, hm⟩ | ⟨hno, hfirst⟩
  · rcases hj with ⟨u, hu, hm'⟩ | ⟨hno, -⟩
    · exact ⟨⟨t, ht, hm⟩, u, hu, hm'⟩
    · exact absurd hm (hno t (List.mem_of_getElem? ht))
  · rcases hj with ⟨u, hu, hm'⟩ | ⟨-, hfirst'⟩
    · exact absurd hm' (hno u (List.mem_of_getElem? hu))
    · exact absurd (hfirst.unique hfirst') hij

/-- **Routing is exact.**  There is one bucket for each package that the policy admits, the first of
each name, in the order of the manifests' places.  A file goes to the packages of which an exact
target is its module; without any such package it goes to the first one with a matching pattern,
and without a match to the shared bucket.  Every input is a listed file's path in normal form, so no
file is lost, the shared bucket is disjoint from all others, and only exact targets put a file into
two buckets. -/
theorem inputs_ofRegistry (r : Registry) (files : List SourceFile) (policy : Policy)
    (fallback : Option DefaultDelivery) :
    let named := firstOfEachName (r.eligible policy)
    let tables := tablesOf named
    let part := ofRegistry r files policy fallback
    (r.toList.map (·.1)).Pairwise (compare · · = .lt) ∧
    FirstOfEachName (r.admitted policy) named ∧
    part.packages.map (·.key) = named.map (fun a => .package a.1) ∧
    (∀ f ∈ files,
      (∀ i b, part.packages[i]? = some b → (b.inputs.contains f.path.normalize ↔
        (∃ t, tables[i]? = some t ∧ t.MatchesExact fallback f.path.normalize) ∨
          (NoExact fallback tables f.path.normalize ∧
            FirstPattern fallback tables i f.path.normalize))) ∧
      (part.shared.inputs.contains f.path.normalize ↔
        ∀ t ∈ tables, ¬ t.MatchesExact fallback f.path.normalize ∧
          ¬ t.MatchesPattern fallback f.path.normalize) ∧
      ∃ b ∈ part.buckets, b.inputs.contains f.path.normalize) ∧
    (∀ b ∈ part.buckets, ∀ q ∈ b.inputs.toList, ∃ f ∈ files, q = f.path.normalize) ∧
    (∀ b ∈ part.packages, ∀ q, b.inputs.contains q → ¬ part.shared.inputs.contains q) ∧
    ∀ (i j : Nat) (b b' : Bucket), i ≠ j →
      part.packages[i]? = some b → part.packages[j]? = some b' →
      ∀ q, b.inputs.contains q → b'.inputs.contains q →
        (∃ t, tables[i]? = some t ∧ t.MatchesExact fallback q) ∧
          ∃ t, tables[j]? = some t ∧ t.MatchesExact fallback q := by
  intro named tables part
  have hnamed : FirstOfEachName (r.admitted policy) named := by
    rw [← r.eligible_eq]
    exact firstOfEachName_spec _
  refine ⟨r.pairwise_toList, hnamed, keys_packages_ofPackages, ?_, ?_, ?_, ?_⟩
  · intro f hf
    have hlisted : ∃ g ∈ files, f.path.normalize ≈ g.path.normalize :=
      ⟨f, hf, Path.equiv_refl _⟩
    refine ⟨fun i b hb => ?_, ?_, exists_bucket_of_mem hf⟩
    · rw [contains_inputs_packages hb, claimsAt_ne_nil_iff]
      exact and_iff_right hlisted
    · rw [← forall_claimsAt_eq_nil_iff]
      exact contains_inputs_shared.trans (and_iff_right hlisted)
  · intro b hb q hq
    exact exists_file_of_mem_inputs hb hq
  · intro b hb q hq hshared
    obtain ⟨i, hi⟩ := List.mem_iff_getElem?.1 hb
    exact ((contains_inputs_packages hi).1 hq).2 ((contains_inputs_shared.1 hshared).2 i)
  · intro i j b b' hij hb hb' q hq hq'
    exact matchesExact_of_contains_two hij hb hb' hq hq'

/-- Packages over one directory: `a` takes its scripts by a pattern, `b` takes one of them as it is,
and so do two packages in front of them, of which one is private. -/
def overlapping : Registry where
  packages := .ofList [
    (⟨"0/package.json"⟩,
      ⟨⟨some "dev", true, .classic,
        { exact := .ofList [(".", .ofList [(.script, .path ⟨"lib/main.js"⟩)])] }, ⟨"0"⟩⟩, none⟩),
    (⟨"1/package.json"⟩,
      ⟨⟨some "x-kit", false, .classic,
        { exact := .ofList [(".", .ofList [(.script, .path ⟨"lib/main.js"⟩)])] }, ⟨"1"⟩⟩, none⟩),
    (⟨"a/package.json"⟩,
      ⟨⟨some "a", false, .classic,
        { patterns := .ofList [(⟨"./", ""⟩,
            .ofList [(.importModule, .pattern ⟨"lib/", ".js"⟩)])] }, ⟨"a"⟩⟩, none⟩),
    (⟨"b/package.json"⟩,
      ⟨⟨some "b", false, .classic,
        { exact := .ofList [(".", .ofList [(.script, .path ⟨"lib/main.js"⟩)])] }, ⟨"b"⟩⟩, none⟩)]

/-- Neither private packages nor those with an `x-` in front of their names. -/
def publicOnly : Policy := .ofTexts false ["x-*"]

/-- A file that several packages match, one that only the pattern matches, and one that none
does. -/
def overlappingFiles : List SourceFile :=
  [⟨⟨"lib/main.ts"⟩, false⟩, ⟨⟨"./lib/util.ts"⟩, false⟩, ⟨⟨"x.js"⟩, false⟩]

/-- The private package and the excluded one have no buckets, and the exact target of `b` keeps the
pattern of `a` from the file that both match. -/
theorem inputs_overlapping :
    let named := firstOfEachName (overlapping.eligible publicOnly)
    let tables := tablesOf named
    let part := ofRegistry overlapping overlappingFiles publicOnly none
    let main : Path := ⟨"lib/main.ts"⟩
    overlapping.toList.map (·.2.name) = [some "dev", some "x-kit", some "a", some "b"] ∧
    FirstOfEachName (overlapping.admitted publicOnly) named ∧
    part.packages.map (·.key) = [.package "a", .package "b"] ∧
    (⟨main, false⟩ : SourceFile) ∈ overlappingFiles ∧
    ∃ a b, part.packages[0]? = some a ∧ part.packages[1]? = some b ∧
      b.inputs.contains main ∧ ¬ a.inputs.contains main ∧ ¬ part.shared.inputs.contains main ∧
      ((∃ t, tables[1]? = some t ∧ t.MatchesExact none main) ∨
        (NoExact none tables main ∧ FirstPattern none tables 1 main)) ∧
      ¬ (NoExact none tables main ∧ FirstPattern none tables 0 main) := by
  intro named tables part main
  have hnames : overlapping.toList.map (·.2.name) =
      [some "dev", some "x-kit", some "a", some "b"] := by
    decide +kernel
  have hkeys : part.packages.map (·.key) = [.package "a", .package "b"] := by decide +kernel
  have hmem : (⟨main, false⟩ : SourceFile) ∈ overlappingFiles := by decide
  have hmain : main.normalize = main := by decide +kernel
  have hpart : part.packages.map (fun b => b.inputs.contains main) = [false, true] := by
    decide +kernel
  have hshared : ¬ part.shared.inputs.contains main := by decide +kernel
  obtain ⟨a, b, hab⟩ : ∃ a b, part.packages = [a, b] := List.length_eq_two.1 <| by
    simpa using congrArg List.length hpart
  rw [hab, List.map_cons, List.map_cons, List.map_nil] at hpart
  obtain ⟨ha, hb⟩ : a.inputs.contains main = false ∧ b.inputs.contains main = true := by
    simpa using hpart
  obtain ⟨-, hnamed, -, hfiles, -⟩ :=
    inputs_ofRegistry overlapping overlappingFiles publicOnly none
  obtain ⟨hroutes, -, -⟩ := hfiles ⟨main, false⟩ hmem
  have hroute0 := hroutes 0 a (congrArg (·[0]?) hab)
  have hroute1 := hroutes 1 b (congrArg (·[1]?) hab)
  rw [hmain] at hroute0 hroute1
  refine ⟨hnames, hnamed, hkeys, hmem, a, b, congrArg (·[0]?) hab, congrArg (·[1]?) hab, hb,
    by simp [ha], hshared, hroute1.1 hb, fun h => ?_⟩
  rw [hroute0.2 (.inr h)] at ha
  cases ha

end Inputs

/-! ### What is delivered -/

section Delivered

variable {b : Bucket}

/-- A file that is routed to a package has an output name in its bucket. -/
theorem exists_outputName_of_routes
    (hb : (ofPackages fallback packages files).packages[i]? = some b) {f : SourceFile}
    (hf : f ∈ files) {d : String} {c : Condition}
    (h : Routes fallback (tablesOf packages) i f.path.normalize d c) :
    ∃ name, b.outputNames.find? f.path.normalize = some name := by
  have hin : b.inputs.contains f.path.normalize := by
    refine (contains_inputs_packages hb).2 ⟨⟨f, hf, Path.equiv_refl _⟩, ?_⟩
    obtain ⟨x, hx, -⟩ := exists_reaches_iff.2 h
    exact List.ne_nil_of_mem hx
  rw [packages_ofPackages, Option.map_eq_some_iff] at hb
  obtain ⟨a, -, rfl⟩ := hb
  rw [(Bucket.aligned_empty _).fill] at hin
  rwa [SortedMap.contains, Option.isSome_iff_exists] at hin

theorem delivery?_packages_eq_some_iff
    (hb : (ofPackages fallback packages files).packages[i]? = some b) {d : String} {c : Condition}
    {name : String} :
    b.delivery? d c = some name ↔
      ∃ f, IsFirst (fun f => Routes fallback (tablesOf packages) i f.path.normalize d c) files f ∧
        b.outputNames.find? f.path.normalize = some name := by
  rw [packages_ofPackages, Option.map_eq_some_iff] at hb
  obtain ⟨a, -, rfl⟩ := hb
  rw [Bucket.delivery?_fill_eq_some_iff]
  have hnone : ({ key := .package a.1 } : Bucket).delivery? d c = none := rfl
  simp only [hnone, reduceCtorEq, false_or, true_and, exists_reaches_iff]

theorem contains_nomodule_packages
    (hb : (ofPackages fallback packages files).packages[i]? = some b) :
    b.nomodule.contains q ↔ ∃ f ∈ files, q ≈ f.path.normalize ∧
      ∃ d c, Routes fallback (tablesOf packages) i f.path.normalize d c ∧ c.IsClassic fallback := by
  rw [packages_ofPackages, Option.map_eq_some_iff] at hb
  obtain ⟨a, -, rfl⟩ := hb
  rw [Bucket.contains_nomodule_fill]
  have hempty : ({ key := .package a.1 } : Bucket).nomodule.contains q = false := rfl
  simp only [hempty, Bool.false_eq_true, or_false, exists_classic_claim_iff]

/-- **Deliveries are sound, complete, and made by the earliest file.**  Something is delivered for
a destination under a condition exactly when an export of the package routes a listed file there;
it is then the output of the earliest such file.  An input is wrapped exactly when it is routed
under a condition whose output runs as a classic script. -/
theorem deliveries_ofRegistry (r : Registry) (files : List SourceFile) (policy : Policy)
    (fallback : Option DefaultDelivery) :
    let named := firstOfEachName (r.eligible policy)
    let tables := tablesOf named
    ∀ i b, (ofRegistry r files policy fallback).packages[i]? = some b →
      (∃ a, named[i]? = some a ∧ b.key = .package a.1) ∧
      (∀ d c, (∃ name, b.delivery? d c = some name) ↔
        ∃ f ∈ files, Routes fallback tables i f.path.normalize d c) ∧
      (∀ d c name, b.delivery? d c = some name ↔
        ∃ f, IsFirst (fun f => Routes fallback tables i f.path.normalize d c) files f ∧
          b.outputNames.find? f.path.normalize = some name) ∧
      ∀ q, b.nomodule.contains q ↔ ∃ f ∈ files, q ≈ f.path.normalize ∧
        ∃ d c, Routes fallback tables i f.path.normalize d c ∧ c.IsClassic fallback := by
  intro named tables i b hb
  refine ⟨?_, fun d c => ?_, fun d c name => delivery?_packages_eq_some_iff hb,
    fun q => contains_nomodule_packages hb⟩
  · rw [ofRegistry, packages_ofPackages, Option.map_eq_some_iff] at hb
    obtain ⟨a, ha, rfl⟩ := hb
    exact ⟨a, ha, Bucket.key_fill⟩
  · rw [← exists_isFirst_iff]
    constructor
    · rintro ⟨name, h⟩
      obtain ⟨f, hf, -⟩ := (delivery?_packages_eq_some_iff hb).1 h
      exact ⟨f, hf⟩
    · rintro ⟨f, hf⟩
      obtain ⟨earlier, later, -, hroute, -⟩ := id hf
      obtain ⟨name, hname⟩ := exists_outputName_of_routes hb hf.mem hroute
      exact ⟨name, (delivery?_packages_eq_some_iff hb).2 ⟨f, hf, hname⟩⟩

/-- Among the packages of which two are not admitted, the pattern of `a` delivers the file that only
it matches. -/
theorem deliveries_overlapping :
    let part := ofRegistry overlapping overlappingFiles publicOnly none
    let tables := tablesOf (firstOfEachName (overlapping.eligible publicOnly))
    ∃ b, part.packages[0]? = some b ∧ b.key = .package "a" ∧
      b.delivery? "./util" .importModule = some "util.js" ∧
      ∃ f, IsFirst (fun f => Routes none tables 0 f.path.normalize "./util" .importModule)
        overlappingFiles f ∧ b.outputNames.find? f.path.normalize = some "util.js" := by
  intro part tables
  have hfound : part.packages[0]?.map
      (fun b => (b.key, b.delivery? "./util" .importModule)) =
        some (.package "a", some "util.js") := by
    decide +kernel
  obtain ⟨b, hb, heq⟩ := Option.map_eq_some_iff.1 hfound
  obtain ⟨hkey, hdel⟩ := Prod.mk.inj heq
  obtain ⟨-, -, hfirst, -⟩ :=
    deliveries_ofRegistry overlapping overlappingFiles publicOnly none 0 b hb
  exact ⟨b, hb, hkey, hdel, (hfirst _ _ _).1 hdel⟩

end Delivered

/-! ### Registries with the same packages -/

/-- What a partition reads of a package. -/
def nameAndTable (a : String × Package) : String × ExportsTable := (a.1, a.2.exports)

theorem firstOfEachName_congr {l l' : List Package} (h : List.Forall₂ Package.Same l l') :
    (firstOfEachName l).map nameAndTable = (firstOfEachName l').map nameAndTable := by
  induction h with
  | nil => rfl
  | @cons p q rest rest' hpq _ ih =>
    rw [firstOfEachName, firstOfEachName, hpq.name]
    cases q.name with
    | none => exact ih
    | some name =>
      have hfilter : ∀ named : List (String × Package),
          (named.filter (·.1 ≠ name)).map nameAndTable =
            (named.map nameAndTable).filter (·.1 ≠ name) := by
        intro named
        rw [List.filter_map]
        rfl
      simp only [List.map_cons, hfilter, ih]
      rw [nameAndTable, nameAndTable, hpq.exports]

/-- **Registries with the same packages have the same partition.** -/
theorem ofRegistry_congr {r r' : Registry}
    (h : List.Forall₂ (fun e e' => e.1 ≈ e'.1 ∧ e.2.Same e'.2) r.toList r'.toList)
    (files : List SourceFile) (policy : Policy) (fallback : Option DefaultDelivery) :
    ofRegistry r files policy fallback = ofRegistry r' files policy fallback := by
  have hpackages : List.Forall₂ Package.Same (r.toList.map (·.2)) (r'.toList.map (·.2)) := by
    rw [List.forall₂_map_left_iff, List.forall₂_map_right_iff]
    exact h.imp fun _ _ he => he.2
  have heligible : List.Forall₂ Package.Same (r.eligible policy) (r'.eligible policy) := by
    refine List.rel_filter ?_ hpackages
    intro p q hpq
    show policy.admits p = true ↔ policy.admits q = true
    rw [hpq.admits_eq policy]
  have hnames : ∀ named : List (String × Package),
      named.map (·.1) = (named.map nameAndTable).map (·.1) := by
    intro named
    rw [List.map_map]
    rfl
  have htables : ∀ named : List (String × Package),
      named.map (·.2.exports) = (named.map nameAndTable).map (·.2) := by
    intro named
    rw [List.map_map]
    rfl
  rw [ofRegistry, ofRegistry, ofPackages, ofPackages, hnames, htables,
    firstOfEachName_congr heligible, ← hnames, ← htables]

end Partition

end PackageRouting
