/-
PackageRouting/Proofs/Growth.lean

More files in a pass take nothing back.

Whatever is in a bucket when a file is added stays there, in all five tables:
an input keeps its name, a name its file, and a destination its output under
each condition (`Grows`).  No table is needed to be in step for this; a name
that is reserved is free, and everywhere else the first entry stays.

Each change of a bucket makes it grow (`grows_addInput`, `grows_mark`,
`grows_record`), and so does adding a file (`grows_addFile`) and, by induction on
the list, adding any files.

Main result: `ofRegistry_append` (the buckets of a pass grow into those of a
longer pass, and a name that is reserved in the shorter one belongs to the same
input in the longer one).
-/
import PackageRouting.Proofs.InStep

namespace PackageRouting

namespace Bucket

variable {b b' b'' : Bucket} {file : SourceFile} {p q : Path} {d name : String} {c : Condition}
  {delivery : Delivery} {claims : List Claim}

/-- All that is in a bucket is in the other one too: the same inputs, wrapped inputs, reserved
names and files behind them, and under each destination and condition the same output. -/
structure Grows (b b' : Bucket) : Prop where
  key : b'.key = b.key
  inputs : b.inputs.IsSubmap b'.inputs
  nomodule : b.nomodule.IsSubmap b'.nomodule
  files : b.files.IsSubmap b'.files
  outputNames : b.outputNames.IsSubmap b'.outputNames
  delivered : b.delivered.Embeds SortedMap.IsSubmap b'.delivered

theorem Grows.refl (b : Bucket) : b.Grows b where
  key := rfl
  inputs := .refl _
  nomodule := .refl _
  files := .refl _
  outputNames := .refl _
  delivered := SortedMap.embeds_refl SortedMap.IsSubmap.refl _

theorem Grows.trans (h : b.Grows b') (h' : b'.Grows b'') : b.Grows b'' where
  key := h'.key.trans h.key
  inputs := h.inputs.trans h'.inputs
  nomodule := h.nomodule.trans h'.nomodule
  files := h.files.trans h'.files
  outputNames := h.outputNames.trans h'.outputNames
  delivered := h.delivered.trans (fun _ _ _ => SortedMap.IsSubmap.trans) h'.delivered

/-- A delivery stays. -/
theorem Grows.delivery? (h : b.Grows b') (hd : b.delivery? d c = some name) :
    b'.delivery? d c = some name := by
  obtain ⟨outputs, hout, hname⟩ := Option.bind_eq_some_iff.1 hd
  obtain ⟨outputs', hout', hsub⟩ := h.delivered.exists_find? hout
  exact Option.bind_eq_some_iff.2 ⟨outputs', hout', hsub.find? hname⟩

/-! ### The changes of a bucket -/

/-- **A new input takes no name away**: the name that is reserved for it is free. -/
theorem grows_addInput (b : Bucket) (file : SourceFile) (p : Path) :
    b.Grows (b.addInput file p) := by
  rw [addInput]
  split
  · exact .refl b
  · next hnew =>
    have hfree : ¬ b.files.contains (p.uniqueOutputName b.files.keys) := by
      rw [← SortedMap.mem_keys_iff]
      exact Path.uniqueOutputName_notMem p b.files.keys
    exact { Grows.refl b with
      inputs := SortedSet.isSubmap_insert b.inputs p
      outputNames := SortedMap.isSubmap_insert hnew _
      files := SortedMap.isSubmap_insert hfree file }

theorem grows_mark (b : Bucket) (p : Path) (delivery : Delivery) : b.Grows (b.mark p delivery) := by
  cases delivery with
  | module => exact .refl b
  | nomodule => exact { Grows.refl b with nomodule := SortedSet.isSubmap_insert b.nomodule p }

theorem grows_record (b : Bucket) (d : String) (c : Condition) (name : String) :
    b.Grows (b.record d c name) := by
  refine { Grows.refl b with
    delivered := SortedMap.embeds_alter SortedMap.IsSubmap.refl fun outputs _ => ?_ }
  exact SortedMap.isSubmap_insertNew outputs c name

theorem grows_deliver (b : Bucket) (file : SourceFile) (p : Path) (d : String) (c : Condition)
    (delivery : Delivery) : b.Grows (b.deliver file p d c delivery) :=
  ((grows_addInput b file p).trans (grows_mark _ p delivery)).trans (grows_record _ d c _)

/-- The claims on a file add to the bucket, one after another. -/
theorem grows_addClaims (b : Bucket) (file : SourceFile) (p : Path) (claims : List Claim) :
    b.Grows (Partition.addClaims file p b claims) := by
  induction claims generalizing b with
  | nil => exact .refl b
  | cons x rest ih => exact (grows_deliver b file p _ _ _).trans (ih _)

end Bucket

/-! ### The buckets of a pass -/

namespace Partition

variable {fallback : Option DefaultDelivery} {tables : List ExportsTable}
  {packages : List (String × Package)} {P : Partition}

theorem forall₂_zipWith_left {α β : Type} {R : α → α → Prop} {f : α → β → α} {l : List α}
    {l' : List β} (hlength : l.length = l'.length) (hR : ∀ a b, R a (f a b)) :
    List.Forall₂ R l (List.zipWith f l l') := by
  induction l generalizing l' with
  | nil => exact .nil
  | cons a rest ih =>
    cases l' with
    | nil => cases hlength
    | cons b rest' => exact .cons (hR a b) (ih (Nat.succ.inj hlength))

theorem forall₂_trans {α : Type} {R : α → α → Prop} {l l' l'' : List α}
    (h : List.Forall₂ R l l') (h' : List.Forall₂ R l' l'')
    (hR : ∀ a b c, R a b → R b c → R a c) : List.Forall₂ R l l'' := by
  induction h generalizing l'' with
  | nil => exact h'
  | cons hab _ ih =>
    cases h' with
    | cons hbc hrest => exact .cons (hR _ _ _ hab hbc) (ih hrest)

/-- **Adding a file makes every bucket grow.** -/
theorem grows_addFile (h : P.packages.length = tables.length) (f : SourceFile) :
    List.Forall₂ Bucket.Grows P.buckets (addFile fallback tables P f).buckets := by
  apply List.rel_append
  · refine forall₂_zipWith_left ?_ fun b claims => Bucket.grows_addClaims b f f.path.normalize claims
    rw [h, length_claims]
  · refine .cons ?_ .nil
    show P.shared.Grows (if _ then _ else _)
    split
    · exact Bucket.grows_addInput P.shared f f.path.normalize
    · exact .refl _

/-- **A list of files makes every bucket grow**, by induction on the list. -/
theorem grows_foldl_addFile (h : P.packages.length = tables.length) (files : List SourceFile) :
    List.Forall₂ Bucket.Grows P.buckets (files.foldl (addFile fallback tables) P).buckets := by
  induction files generalizing P with
  | nil => exact List.forall₂_same.2 fun b _ => .refl b
  | cons f rest ih =>
    exact forall₂_trans (grows_addFile h f) (ih (length_packages_addFile h f))
      fun _ _ _ => Bucket.Grows.trans

theorem length_packages_ofPackages (files : List SourceFile) :
    (ofPackages fallback packages files).packages.length = packages.length := by
  have hkeys : (ofPackages fallback packages files).packages.map (·.key) =
      packages.map fun a => .package a.1 := keys_packages_ofPackages
  simpa using congrArg List.length hkeys

/-- **A longer pass keeps what a shorter one assigned.**  When files are added behind those of a
pass, there are the same buckets, and each of them grows: inputs stay, wrapped ones stay wrapped, a
reserved name stays with its input and its file, and an output stays where it is delivered.  No
other input gets a name that is reserved already. -/
theorem ofRegistry_append (r : Registry) (xs ys : List SourceFile) (policy : Policy)
    (fallback : Option DefaultDelivery) :
    let before := ofRegistry r xs policy fallback
    let after := ofRegistry r (xs ++ ys) policy fallback
    List.Forall₂ (fun b b' => b.Grows b' ∧ ∀ q q' name, b.outputNames.find? q = some name →
      b'.outputNames.find? q' = some name → q ≈ q') before.buckets after.buckets := by
  intro before after
  have hlength : before.packages.length =
      (tablesOf (firstOfEachName (r.eligible policy))).length := by
    rw [tablesOf, List.length_map]
    exact length_packages_ofPackages xs
  have hafter : after = ys.foldl
      (addFile fallback (tablesOf (firstOfEachName (r.eligible policy)))) before :=
    List.foldl_append
  have hgrows : List.Forall₂ Bucket.Grows before.buckets after.buckets := by
    rw [hafter]
    exact grows_foldl_addFile hlength ys
  have hboth : List.Forall₂ (fun b' b => b'.InStep (xs ++ ys) ∧ b.Grows b') after.buckets
      before.buckets :=
    (List.forall₂_and_left _ _).2 ⟨fun b' hb' => inStep_buckets hb', hgrows.flip⟩
  refine hboth.flip.imp ?_
  rintro b b' ⟨hstep, hbb'⟩
  refine ⟨hbb', fun q q' name hq hq' => ?_⟩
  exact hstep.injective q q' name (hbb'.outputNames.find? hq) hq'

/-- Two files of one stem, of which the second is numbered. -/
def numberedFiles : List SourceFile :=
  [⟨⟨"ui/blog/index.js"⟩, false⟩, ⟨⟨"ui/docs/index.js"⟩, false⟩]

/-- A later file whose own name is that number does not get it. -/
theorem ofRegistry_append_numbered :
    let before := ofRegistry classicScripts numberedFiles {} none
    let after := ofRegistry classicScripts (numberedFiles ++ [⟨⟨"ui/index2.js"⟩, true⟩]) {} none
    ∃ b b', before.packages = [b] ∧ after.packages = [b'] ∧
      b.outputNames.find? ⟨"ui/docs/index.js"⟩ = some "index2.js" ∧
      b'.outputNames.find? ⟨"ui/index2.js"⟩ = some "index22.js" ∧
      b.Grows b' ∧ b'.outputNames.find? ⟨"ui/docs/index.js"⟩ = some "index2.js" := by
  intro before after
  have hbefore : before.packages.map (fun b => b.outputNames.find? ⟨"ui/docs/index.js"⟩) =
      [some "index2.js"] := by
    decide +kernel
  have hafter : after.packages.map (fun b => b.outputNames.find? ⟨"ui/index2.js"⟩) =
      [some "index22.js"] := by
    decide +kernel
  obtain ⟨b, hb, hname⟩ := List.map_eq_singleton_iff.1 hbefore
  obtain ⟨b', hb', hname'⟩ := List.map_eq_singleton_iff.1 hafter
  have hall := ofRegistry_append classicScripts numberedFiles [⟨⟨"ui/index2.js"⟩, true⟩] {} none
  replace hall : List.Forall₂ _ (before.packages ++ [before.shared])
    (after.packages ++ [after.shared]) := hall
  rw [hb, hb'] at hall
  obtain ⟨hgrows, -⟩ := (List.forall₂_cons.1 hall).1
  exact ⟨b, b', hb, hb', hname, hname', hgrows, hgrows.outputNames.find? hname⟩

end Partition

end PackageRouting
