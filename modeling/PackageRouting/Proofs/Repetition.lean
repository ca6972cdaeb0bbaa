/-
PackageRouting/Proofs/Repetition.lean

A file that is listed again counts once.

When a file has been added, what its claims ask for is in the bucket (`Meets`),
and it stays there whatever is added next, because buckets grow.  A file of the
same path has the same claims, so adding it later changes nothing in any table
(`addClaims_eq_self`).  Hence a fold over the files may leave it out
(`foldl_firstOfEachPath`).

Main result: `ofRegistry_firstOfEachPath` (the repeated files of a pass show in
nothing but its wish for source maps).
-/
import PackageRouting.Proofs.Growth

namespace PackageRouting

/-! ### The first file of each path -/

/-- The list without the files whose path an earlier file has, after folding. -/
def firstOfEachPath : List SourceFile → List SourceFile
  | [] => []
  | f :: rest =>
    f :: (firstOfEachPath rest).filter fun g => ¬ g.path.normalize ≈ f.path.normalize

/-- A list of files that takes, of another list, the first file of each path, in the order of that
list. -/
structure FirstOfEachPath (files kept : List SourceFile) : Prop where
  sublist : kept.Sublist files
  distinct : kept.Pairwise fun f g => ¬ g.path.normalize ≈ f.path.normalize
  mem_iff : ∀ f, f ∈ kept ↔ IsFirst (fun g => g.path.normalize ≈ f.path.normalize) files f

theorem sublist_firstOfEachPath (files : List SourceFile) :
    (firstOfEachPath files).Sublist files := by
  induction files with
  | nil => exact .slnil
  | cons f rest ih => exact (List.filter_sublist.trans ih).cons_cons f

theorem pairwise_firstOfEachPath (files : List SourceFile) :
    (firstOfEachPath files).Pairwise fun f g => ¬ g.path.normalize ≈ f.path.normalize := by
  induction files with
  | nil => exact .nil
  | cons f rest ih =>
    refine List.pairwise_cons.2 ⟨fun g hg => ?_, ih.filter _⟩
    simpa using (List.mem_filter.1 hg).2

theorem mem_firstOfEachPath_iff {files : List SourceFile} {f : SourceFile} :
    f ∈ firstOfEachPath files ↔
      IsFirst (fun g => g.path.normalize ≈ f.path.normalize) files f := by
  induction files with
  | nil => simp [firstOfEachPath, not_isFirst_nil]
  | cons a rest ih =>
    rw [firstOfEachPath, List.mem_cons, List.mem_filter, isFirst_cons, ih]
    constructor
    · rintro (rfl | ⟨hfirst, hne⟩)
      · exact .inl ⟨Path.equiv_refl _, rfl⟩
      · exact .inr ⟨fun h => by simp [Path.equiv_symm h] at hne, hfirst⟩
    · rintro (⟨-, rfl⟩ | ⟨hne, hfirst⟩)
      · exact .inl rfl
      · exact .inr ⟨hfirst, by simpa using fun h => hne (Path.equiv_symm h)⟩

theorem firstOfEachPath_spec (files : List SourceFile) :
    FirstOfEachPath files (firstOfEachPath files) where
  sublist := sublist_firstOfEachPath files
  distinct := pairwise_firstOfEachPath files
  mem_iff _ := mem_firstOfEachPath_iff

section Fold

variable {β : Type} {step : β → SourceFile → β} (Settled : β → Path → Prop)

/-- Files of a path that is settled may be left out of a fold. -/
theorem foldl_filter_of_settled
    (hkeep : ∀ b p f, Settled b p → Settled (step b f) p)
    (hsame : ∀ b f, Settled b f.path.normalize → step b f = b)
    {b : β} {p : Path} (h : Settled b p.normalize) (files : List SourceFile) :
    (files.filter fun f => ¬ f.path.normalize ≈ p.normalize).foldl step b =
      files.foldl step b := by
  induction files generalizing b with
  | nil => rfl
  | cons f rest ih =>
    rw [List.filter_cons]
    split
    · exact ih (hkeep b _ f h)
    · next hf =>
      have hpath : f.path.normalize = p.normalize := Path.normalize_ext (by simpa using hf)
      rw [List.foldl_cons, hsame b f (by rwa [hpath]), ih h]

/-- **A fold over files may leave out the repeated ones**, if a file's step settles its path, no
step unsettles a path, and a file of a settled path changes nothing. -/
theorem foldl_firstOfEachPath
    (hsettle : ∀ b f, Settled (step b f) f.path.normalize)
    (hkeep : ∀ b p f, Settled b p → Settled (step b f) p)
    (hsame : ∀ b f, Settled b f.path.normalize → step b f = b)
    (files : List SourceFile) (b : β) :
    (firstOfEachPath files).foldl step b = files.foldl step b := by
  induction files generalizing b with
  | nil => rfl
  | cons f rest ih =>
    rw [firstOfEachPath, List.foldl_cons,
      foldl_filter_of_settled Settled hkeep hsame (hsettle b f) (firstOfEachPath rest), ih,
      List.foldl_cons]

end Fold

namespace Bucket

variable {b b' : Bucket} {file : SourceFile} {p : Path} {x : Claim} {claims : List Claim}

/-- What a claim on the file at a path asks for is in the bucket. -/
structure Meets (b : Bucket) (p : Path) (x : Claim) : Prop where
  named : b.outputNames.contains p
  marked : x.delivery = .nomodule → b.nomodule.contains p
  delivered : ∃ name, b.delivery? x.destination x.condition = some name

theorem Meets.grows (h : b.Meets p x) (hgrows : b.Grows b') : b'.Meets p x where
  named := hgrows.outputNames.contains h.named
  marked hx := hgrows.nomodule.contains (h.marked hx)
  delivered := h.delivered.imp fun _ => hgrows.delivery?

theorem meets_deliver (b : Bucket) (file : SourceFile) (p : Path) (x : Claim) :
    (b.deliver file p x.destination x.condition x.delivery).Meets p x := by
  obtain ⟨name, hname⟩ := exists_outputNames_addInput b file p
  refine ⟨?_, fun hx => ?_, ?_⟩
  · rw [outputNames_deliver, contains_outputNames_addInput]
    exact .inl (Path.equiv_refl p)
  · exact contains_nomodule_deliver.2 (.inl ⟨Path.equiv_refl p, hx⟩)
  · rw [delivery?_deliver hname, if_pos ⟨rfl, rfl⟩]
    exact ⟨_, rfl⟩

/-- A claim that is met changes nothing. -/
theorem Meets.deliver_eq_self (h : b.Meets p x) (file : SourceFile) :
    b.deliver file p x.destination x.condition x.delivery = b := by
  have hadd : b.addInput file p = b := by rw [addInput, if_pos h.named]
  have hmark : b.mark p x.delivery = b := by
    cases hx : x.delivery with
    | module => rfl
    | nomodule => rw [mark, SortedSet.insert_eq_self (h.marked hx)]
  obtain ⟨name, hname⟩ := h.delivered
  obtain ⟨outputs, hout, hfind⟩ := Option.bind_eq_some_iff.1 hname
  have hrecord : ∀ output, b.record x.destination x.condition output = b := by
    intro output
    rw [record, SortedMap.alter_eq_self hout]
    exact SortedMap.insertNew_eq_self hfind output
  simp only [deliver, hadd, hmark, hrecord]

/-- The claims on a file are met once the file is added. -/
theorem meets_addClaims (b : Bucket) (file : SourceFile) (p : Path) (hx : x ∈ claims) :
    (Partition.addClaims file p b claims).Meets p x := by
  induction claims generalizing b with
  | nil => cases hx
  | cons y rest ih =>
    rcases List.mem_cons.1 hx with rfl | hx
    · exact (meets_deliver b file p x).grows (grows_addClaims _ file p rest)
    · exact ih _ hx

/-- **Claims that are met change nothing.** -/
theorem addClaims_eq_self (h : ∀ x ∈ claims, b.Meets p x) (file : SourceFile) :
    Partition.addClaims file p b claims = b := by
  induction claims with
  | nil => rfl
  | cons y rest ih =>
    have hrest := ih fun x hx => h x (List.mem_cons_of_mem _ hx)
    rw [Partition.addClaims, List.foldl_cons, (h y List.mem_cons_self).deliver_eq_self file]
    exact hrest

/-- A bucket that is filled by claims on paths does not see repeated files. -/
theorem fill_firstOfEachPath (claimsOn : Path → List Claim) (b : Bucket)
    (files : List SourceFile) :
    b.fill (fun f => claimsOn f.path.normalize) (firstOfEachPath files) =
      b.fill (fun f => claimsOn f.path.normalize) files := by
  refine foldl_firstOfEachPath (fun b p => ∀ x ∈ claimsOn p, b.Meets p x) ?_ ?_ ?_ files b
  · exact fun b f x hx => meets_addClaims b f _ hx
  · exact fun b p f h x hx => (h x hx).grows (grows_addClaims b f _ _)
  · exact fun b f h => addClaims_eq_self h f

/-- A bucket to which the files of certain paths are added does not see repeated files. -/
theorem addAll_filter_firstOfEachPath (takes : Path → Bool) (b : Bucket)
    (files : List SourceFile) :
    b.addAll ((firstOfEachPath files).filter fun f => takes f.path.normalize) =
      b.addAll (files.filter fun f => takes f.path.normalize) := by
  rw [addAll, addAll, List.foldl_filter, List.foldl_filter]
  refine foldl_firstOfEachPath (fun b p => takes p → b.outputNames.contains p) ?_ ?_ ?_ files b
  · intro b f hf
    rw [if_pos hf]
    exact contains_outputNames_addInput.2 (.inl (Path.equiv_refl _))
  · intro b p f h hp
    split
    · exact (grows_addInput b f _).outputNames.contains (h hp)
    · exact h hp
  · intro b f h
    split
    · next hf => rw [addInput, if_pos (h hf)]
    · rfl

end Bucket

namespace Partition

variable {fallback : Option DefaultDelivery} {tables : List ExportsTable}
  {packages : List (String × Package)} {P : Partition}

theorem sourceMaps_foldl_addFile (files : List SourceFile) :
    (files.foldl (addFile fallback tables) P).sourceMaps =
      (P.sourceMaps || files.any (·.sourceMap)) := by
  induction files generalizing P with
  | nil => exact (Bool.or_false _).symm
  | cons f rest ih => rw [List.foldl_cons, ih, List.any_cons, ← Bool.or_assoc]; rfl

theorem packages_firstOfEachPath (files : List SourceFile) :
    (ofPackages fallback packages (firstOfEachPath files)).packages =
      (ofPackages fallback packages files).packages := by
  apply List.ext_getElem?
  intro i
  rw [packages_ofPackages, packages_ofPackages]
  congr 1
  funext a
  exact Bucket.fill_firstOfEachPath (claimsAt fallback (tablesOf packages) · i) _ files

theorem shared_firstOfEachPath (files : List SourceFile) :
    (ofPackages fallback packages (firstOfEachPath files)).shared =
      (ofPackages fallback packages files).shared := by
  rw [shared_ofPackages, shared_ofPackages]
  exact Bucket.addAll_filter_firstOfEachPath
    (fun p => (claims fallback (tablesOf packages) p).all List.isEmpty) _ files

/-- **Repeated files are absorbed.**  Leaving out every file whose path an earlier one has, however
the two are spelled and whatever they want, leaves each bucket as it is, with the shared one; that
some file of the pass wants a source map is all that is read off the others. -/
theorem ofRegistry_firstOfEachPath (r : Registry) (files : List SourceFile) (policy : Policy)
    (fallback : Option DefaultDelivery) :
    FirstOfEachPath files (firstOfEachPath files) ∧
    ofRegistry r files policy fallback =
      { ofRegistry r (firstOfEachPath files) policy fallback with
        sourceMaps := files.any (·.sourceMap) } := by
  refine ⟨firstOfEachPath_spec files, ?_⟩
  have hpackages : (ofRegistry r (firstOfEachPath files) policy fallback).packages =
      (ofRegistry r files policy fallback).packages := packages_firstOfEachPath files
  have hshared : (ofRegistry r (firstOfEachPath files) policy fallback).shared =
      (ofRegistry r files policy fallback).shared := shared_firstOfEachPath files
  have hmaps : (ofRegistry r files policy fallback).sourceMaps = files.any (·.sourceMap) :=
    sourceMaps_foldl_addFile files
  simp only [hpackages, hshared, ← hmaps]

end Partition

end PackageRouting
