/-
PackageRouting/Proofs/InStep.lean

The tables of a bucket stay in step.

A bucket has five tables, and they are changed in different places: by a new
input, by one that is there already, by a claim that marks it, and by one that
is delivered.  `InStep` says how they belong together, for the files that were
added so far.  Adding an input keeps it (`InStep.addInput`), since the name that
is reserved is free; marking and recording keep it for an input that is there.

Main result: `inStep_ofRegistry` (every bucket of a partition is in step, for the
files of the pass).
-/
import PackageRouting.Proofs.Partition
import PackageRouting.Proofs.Path.OutputName

namespace PackageRouting

namespace Bucket

variable {b : Bucket} {added : List SourceFile} {file : SourceFile} {p q : Path} {d name : String}
  {c : Condition} {delivery : Delivery} {claims : List Claim}

/-- The tables of a bucket belong together: a name is reserved for each input and for nothing
else, no two inputs have one name, behind a name stands the first of the given files that is the
input, and what is wrapped or delivered is an input or its output. -/
structure InStep (files : List SourceFile) (b : Bucket) : Prop where
  keys : b.outputNames.keys = b.inputs.toList
  injective : ∀ q q' name, b.outputNames.find? q = some name →
    b.outputNames.find? q' = some name → q ≈ q'
  values : ∀ name, name ∈ b.outputNames.values ↔ name ∈ b.files.keys
  first : ∀ q name, b.outputNames.find? q = some name →
    ∃ f, b.files.find? name = some f ∧ IsFirst (fun f => f.path.normalize ≈ q) files f
  nomodule : ∀ q, b.nomodule.contains q → b.inputs.contains q
  delivered : ∀ d c name, b.delivery? d c = some name → name ∈ b.files.keys
  /-- A reserved name is a single step of a path, and ends in the extension. -/
  singleStep : ∀ name ∈ b.outputNames.values,
    (⟨name⟩ : Path).components = [.name name] ∧ ∃ base, name = base ++ bundleExtension

theorem inStep_empty (key : BucketKey) : InStep [] { key := key } where
  keys := rfl
  injective q q' name h := by cases h
  values name := by simp [SortedMap.values, SortedMap.keys, SortedMap.empty]
  first q name h := by cases h
  nomodule q h := by cases h
  delivered d c name h := by cases h
  singleStep name h := by cases h

/-! ### What is in step -/

theorem InStep.aligned (h : b.InStep added) : b.Aligned := by
  intro q
  have hkeys : ∀ {α β : Type} {m : SortedMap Path α} {m' : SortedMap Path β}, m.keys = m'.keys →
      m.contains q → m'.contains q := by
    intro α β m m' hm hq
    obtain ⟨v, hv⟩ := Option.isSome_iff_exists.1 hq
    obtain ⟨k, hk, hmem⟩ := SortedMap.find?_eq_some_iff.1 hv
    rw [SortedMap.contains_congr _ hk]
    apply SortedMap.contains_of_mem_keys
    rw [← hm]
    exact List.mem_map.2 ⟨_, hmem, rfl⟩
  rw [Bool.eq_iff_iff]
  exact ⟨hkeys h.keys.symm, hkeys h.keys⟩

/-- An input has a name. -/
theorem InStep.exists_outputName (h : b.InStep added) (hq : b.inputs.contains q) :
    ∃ name, b.outputNames.find? q = some name := by
  rwa [h.aligned, SortedMap.contains, Option.isSome_iff_exists] at hq

theorem InStep.find?_outputName (h : b.InStep added) (hq : q ∈ b.inputs.toList) :
    b.outputNames.find? q = some (b.outputName q) := by
  obtain ⟨name, hname⟩ := h.exists_outputName (SortedMap.contains_of_mem_keys hq)
  rw [outputName, hname, Option.getD_some]

/-- The name of an input is a single step of a path. -/
theorem InStep.components_outputName (h : b.InStep added) (hq : q ∈ b.inputs.toList) :
    (⟨b.outputName q⟩ : Path).components = [.name (b.outputName q)] :=
  (h.singleStep _ (SortedMap.mem_values_iff.2 ⟨q, h.find?_outputName hq⟩)).1

/-- What has a name is an input. -/
theorem InStep.contains_of_find? (h : b.InStep added) (hq : b.outputNames.find? q = some name) :
    b.inputs.contains q := by
  rw [h.aligned, SortedMap.contains, hq]
  rfl

/-- Files that are in front of the others do not change what stands behind a name. -/
theorem InStep.of_filter {files : List SourceFile} {keep : SourceFile → Bool}
    (h : b.InStep (files.filter keep))
    (hkeep : ∀ f ∈ files, b.inputs.contains f.path.normalize → keep f) : b.InStep files := by
  refine { h with first := fun q name hq => ?_ }
  obtain ⟨f, hf, hfirst⟩ := h.first q name hq
  refine ⟨f, hf, hfirst.of_filter fun g hg hgq => hkeep g hg ?_⟩
  rw [SortedMap.contains_congr _ (Path.compare_eq_iff.2 hgq)]
  exact h.contains_of_find? hq

/-! ### Adding an input -/

theorem InStep.addInput_of_contains (h : b.InStep added) (hp : b.inputs.contains p) :
    b.addInput file p = b := by
  rw [addInput, if_pos (by rwa [← h.aligned])]

section New

variable (hnew : ¬ b.outputNames.contains p)

include hnew

/-- A name is found for the new input, or was found before. -/
theorem find?_outputNames_addInput_iff :
    (b.addInput file p).outputNames.find? q = some name ↔
      (q ≈ p ∧ name = p.uniqueOutputName b.files.keys) ∨ b.outputNames.find? q = some name := by
  rw [addInput, if_neg hnew]
  show (b.outputNames.insert p _).find? q = some name ↔ _
  rw [SortedMap.find?_insert]
  split
  · next hq =>
    have hnone : b.outputNames.find? q = none := by
      rwa [SortedMap.contains, Option.not_isSome_iff_eq_none, ← SortedMap.find?_congr _ hq] at hnew
    rw [hnone]
    simp [Path.compare_eq_iff.1 hq, eq_comm]
  · next hq => simp [mt Path.compare_eq_iff.2 hq]

theorem mem_values_addInput_iff :
    name ∈ (b.addInput file p).outputNames.values ↔
      name = p.uniqueOutputName b.files.keys ∨ name ∈ b.outputNames.values := by
  simp only [SortedMap.mem_values_iff, find?_outputNames_addInput_iff hnew, exists_or]
  exact or_congr_left ⟨fun ⟨_, h⟩ => h.2, fun h => ⟨p, Path.equiv_refl p, h⟩⟩

theorem mem_keys_files_addInput_iff :
    name ∈ (b.addInput file p).files.keys ↔
      name = p.uniqueOutputName b.files.keys ∨ name ∈ b.files.keys := by
  rw [addInput, if_neg hnew]
  show name ∈ (b.files.insert _ file).keys ↔ _
  rw [SortedMap.mem_keys_iff, SortedMap.mem_keys_iff, SortedMap.contains_insert,
    Std.compare_eq_iff_eq]

/-- Behind the new name stands the file, and behind every other what stood there before. -/
theorem find?_files_addInput :
    (b.addInput file p).files.find? name =
      if name = p.uniqueOutputName b.files.keys then some file else b.files.find? name := by
  rw [addInput, if_neg hnew]
  show (b.files.insert _ file).find? name = _
  rw [SortedMap.find?_insert]
  simp only [Std.compare_eq_iff_eq]

end New

/-- **A new input keeps a bucket in step**: the name that is reserved for it is free. -/
theorem InStep.addInput (h : b.InStep added) (hnew : ¬ b.inputs.contains file.path.normalize)
    (hlisted : ∀ f ∈ added, b.inputs.contains f.path.normalize) :
    (b.addInput file file.path.normalize).InStep (added ++ [file]) := by
  have hnames : ¬ b.outputNames.contains file.path.normalize := by rwa [← h.aligned]
  have hfree := Path.uniqueOutputName_notMem file.path.normalize b.files.keys
  have hfreshName : ∀ q, b.outputNames.find? q ≠
      some (file.path.normalize.uniqueOutputName b.files.keys) := fun q hq =>
    hfree ((h.values _).1 (SortedMap.mem_values_iff.2 ⟨q, hq⟩))
  refine ⟨?_, ?_, ?_, ?_, ?_, ?_, ?_⟩
  · rw [Bucket.addInput, if_neg hnames]
    exact SortedMap.keys_insert_congr h.keys _ _ ()
  · intro q q' name hq hq'
    rcases (find?_outputNames_addInput_iff hnames).1 hq with ⟨hqp, rfl⟩ | hold
    · rcases (find?_outputNames_addInput_iff hnames).1 hq' with ⟨hqp', -⟩ | hold'
      · exact Path.equiv_trans hqp (Path.equiv_symm hqp')
      · exact absurd hold' (hfreshName q')
    · rcases (find?_outputNames_addInput_iff hnames).1 hq' with ⟨-, rfl⟩ | hold'
      · exact absurd hold (hfreshName q)
      · exact h.injective q q' name hold hold'
  · intro name
    rw [mem_values_addInput_iff hnames, mem_keys_files_addInput_iff hnames, h.values]
  · intro q name hq
    rw [find?_files_addInput hnames]
    rcases (find?_outputNames_addInput_iff hnames).1 hq with ⟨hqp, rfl⟩ | hold
    · -- no file before was this input, or it would be there already
      refine ⟨file, if_pos rfl, isFirst_append_singleton (Path.equiv_symm hqp) fun f hf hfq => ?_⟩
      apply hnew
      rw [← SortedMap.contains_congr _ (Path.compare_eq_iff.2 (Path.equiv_trans hfq hqp))]
      exact hlisted f hf
    · obtain ⟨f, hf, hfirst⟩ := h.first q name hold
      refine ⟨f, ?_, hfirst.append [file]⟩
      rw [if_neg, hf]
      rintro rfl
      exact hfreshName q hold
  · intro q hq
    rw [nomodule_addInput] at hq
    exact (contains_inputs_addInput h.aligned).2 (.inr (h.nomodule q hq))
  · intro d c name hd
    rw [delivery?, delivered_addInput] at hd
    exact (mem_keys_files_addInput_iff hnames).2 (.inr (h.delivered d c name hd))
  · intro name hname
    rcases (mem_values_addInput_iff hnames).1 hname with rfl | hold
    · have houtput := Path.isOutputName_uniqueOutputName file.path.normalize b.files.keys
      obtain ⟨base, hbase, -⟩ := id houtput
      exact ⟨houtput.components, base, hbase⟩
    · exact h.singleStep name hold

/-! ### Marking and recording -/

theorem InStep.mark (h : b.InStep added) (hp : b.inputs.contains p) :
    (b.mark p delivery).InStep added := by
  cases delivery with
  | module => exact h
  | nomodule =>
    refine { h with nomodule := fun q hq => ?_ }
    rw [Bucket.mark, SortedSet.contains_insert] at hq
    rcases hq with hq | hq
    · exact (SortedMap.contains_congr _ hq).trans hp
    · exact h.nomodule q hq

theorem InStep.record (h : b.InStep added) (hname : name ∈ b.files.keys) :
    (b.record d c name).InStep added := by
  refine { h with delivered := fun d' c' name' hd => ?_ }
  rw [delivery?_record] at hd
  split at hd
  · -- the output that came first stays
    cases hold : b.delivery? d c with
    | none =>
      obtain rfl : name = name' := by simpa [hold] using hd
      exact hname
    | some first =>
      obtain rfl : first = name' := by simpa [hold] using hd
      exact h.delivered d c first hold
  · exact h.delivered d' c' name' hd

/-- A delivery keeps a bucket in step once the input is there. -/
theorem InStep.deliver_of_contains (h : b.InStep added) (hp : b.inputs.contains p) :
    (b.deliver file p d c delivery).InStep added := by
  obtain ⟨name, hname⟩ := h.exists_outputName hp
  rw [Bucket.deliver, h.addInput_of_contains hp]
  apply (h.mark hp).record
  have hout : (b.mark p delivery).outputName p = name := by
    rw [outputName, outputNames_mark, hname, Option.getD_some]
  rw [hout, show (b.mark p delivery).files = b.files by cases delivery <;> rfl, ← h.values]
  exact SortedMap.mem_values_iff.2 ⟨p, hname⟩

/-- The claims on an input that is there keep a bucket in step. -/
theorem InStep.addClaims_of_contains (h : b.InStep added) (hp : b.inputs.contains p) :
    (Partition.addClaims file p b claims).InStep added := by
  induction claims generalizing b with
  | nil => exact h
  | cons x rest ih =>
    refine ih (h.deliver_of_contains hp) ?_
    rw [inputs_deliver, h.addInput_of_contains hp]
    exact hp

/-! ### Filling a bucket -/

/-- Every given file is an input. -/
def Takes (files : List SourceFile) (b : Bucket) : Prop :=
  ∀ f ∈ files, b.inputs.contains f.path.normalize

/-- Adding a file keeps a bucket in step, whether it is a new input or not. -/
theorem InStep.addInput_takes (h : b.InStep added) (htakes : b.Takes added) (file : SourceFile) :
    (b.addInput file file.path.normalize).InStep (added ++ [file]) ∧
      (b.addInput file file.path.normalize).Takes (added ++ [file]) := by
  constructor
  · by_cases hp : b.inputs.contains file.path.normalize
    · rw [h.addInput_of_contains hp]
      exact { h with
        first := fun q name hq =>
          (h.first q name hq).imp fun f hf => ⟨hf.1, hf.2.append [file]⟩ }
    · exact h.addInput hp htakes
  · intro f hf
    rw [contains_inputs_addInput h.aligned]
    rcases List.mem_append.1 hf with hf | hf
    · exact .inr (htakes f hf)
    · obtain rfl := List.mem_singleton.1 hf
      exact .inl (Path.equiv_refl _)

/-- The input is there after its first claim, so it may as well be added before. -/
theorem addClaims_eq_addClaims_addInput (h : (b.addInput file p).InStep added)
    (hne : claims ≠ []) :
    Partition.addClaims file p b claims =
      Partition.addClaims file p (b.addInput file p) claims := by
  obtain ⟨x, rest, rfl⟩ := List.exists_cons_of_ne_nil hne
  obtain ⟨name, hname⟩ := exists_outputNames_addInput b file p
  have hagain : (b.addInput file p).addInput file p = b.addInput file p :=
    h.addInput_of_contains (h.contains_of_find? hname)
  rw [Partition.addClaims, List.foldl_cons, Partition.addClaims, List.foldl_cons, deliver, deliver,
    hagain]

/-- **The claims on a file keep a bucket in step.** -/
theorem InStep.addClaims (h : b.InStep added) (htakes : b.Takes added) (hne : claims ≠ []) :
    (Partition.addClaims file file.path.normalize b claims).InStep (added ++ [file]) ∧
      (Partition.addClaims file file.path.normalize b claims).Takes (added ++ [file]) := by
  obtain ⟨hstep, htakes⟩ := h.addInput_takes htakes file
  have hp : (b.addInput file file.path.normalize).inputs.contains file.path.normalize :=
    htakes file (by simp)
  rw [addClaims_eq_addClaims_addInput hstep hne]
  refine ⟨hstep.addClaims_of_contains hp, fun f hf => ?_⟩
  rw [contains_inputs_addClaims hstep.aligned]
  exact .inr (htakes f hf)

section Fill

variable {route : SourceFile → List Claim} {files : List SourceFile}

theorem InStep.fill (h : b.InStep added) (htakes : b.Takes added) :
    (b.fill route files).InStep (added ++ files.filter (route · ≠ [])) := by
  induction files generalizing b added with
  | nil =>
    rw [List.filter_nil, List.append_nil]
    exact h
  | cons f rest ih =>
    show (Bucket.fill route (Partition.addClaims f f.path.normalize b (route f)) rest).InStep _
    rw [List.filter_cons]
    by_cases hf : route f = []
    · -- a file without a claim leaves the bucket as it is
      rw [if_neg (by simp [hf]), hf]
      exact ih h htakes
    · rw [if_pos (by simp [hf]), List.append_cons]
      obtain ⟨hstep, htakes⟩ := h.addClaims htakes hf
      exact ih hstep htakes

theorem InStep.addAll (h : b.InStep added) (htakes : b.Takes added) :
    (b.addAll files).InStep (added ++ files) := by
  induction files generalizing b added with
  | nil =>
    rw [List.append_nil]
    exact h
  | cons f rest ih =>
    obtain ⟨hstep, htakes⟩ := h.addInput_takes htakes f
    rw [List.append_cons]
    exact ih hstep htakes

@[simp] theorem key_addAll : (b.addAll files).key = b.key := by
  induction files generalizing b with
  | nil => rfl
  | cons f rest ih => exact ih.trans key_addInput

@[simp] theorem nomodule_addAll : (b.addAll files).nomodule = b.nomodule := by
  induction files generalizing b with
  | nil => rfl
  | cons f rest ih => exact ih.trans nomodule_addInput

@[simp] theorem delivered_addAll : (b.addAll files).delivered = b.delivered := by
  induction files generalizing b with
  | nil => rfl
  | cons f rest ih => exact ih.trans delivered_addInput

end Fill

end Bucket

/-! ### The buckets of a partition -/

namespace Partition

variable {fallback : Option DefaultDelivery} {packages : List (String × Package)}
  {files : List SourceFile} {b : Bucket}

theorem inStep_packages (hb : b ∈ (ofPackages fallback packages files).packages) :
    b.InStep files := by
  obtain ⟨i, hi⟩ := List.mem_iff_getElem?.1 hb
  have hroute : ∀ f ∈ files, b.inputs.contains f.path.normalize →
      claimsAt fallback (tablesOf packages) f.path.normalize i ≠ [] :=
    fun f _ hf => ((contains_inputs_packages hi).1 hf).2
  rw [packages_ofPackages, Option.map_eq_some_iff] at hi
  obtain ⟨a, -, rfl⟩ := hi
  exact ((Bucket.inStep_empty _).fill (by simp [Bucket.Takes])).of_filter fun f hf hin => by
    simpa using hroute f hf hin

theorem inStep_shared : (ofPackages fallback packages files).shared.InStep files := by
  have hclaims : ∀ f ∈ files,
      (ofPackages fallback packages files).shared.inputs.contains f.path.normalize →
      isUnclaimed fallback (tablesOf packages) f :=
    fun f _ hf => all_isEmpty_claims_iff.2 (contains_inputs_shared.1 hf).2
  rw [shared_ofPackages] at hclaims ⊢
  exact ((Bucket.inStep_empty _).addAll (by simp [Bucket.Takes])).of_filter hclaims

theorem inStep_buckets (hb : b ∈ (ofPackages fallback packages files).buckets) :
    b.InStep files := by
  rcases List.mem_append.1 hb with hb | hb
  · exact inStep_packages hb
  · obtain rfl := List.mem_singleton.1 hb
    exact inStep_shared

/-- **Every bucket of a partition is in step**, for the files of the pass: names are reserved for
its inputs, no name twice, and behind each stands the first file that is the input.  Nothing in the
shared bucket is wrapped or delivered. -/
theorem inStep_ofRegistry (r : Registry) (files : List SourceFile) (policy : Policy)
    (fallback : Option DefaultDelivery) :
    let part := ofRegistry r files policy fallback
    (∀ b ∈ part.buckets, b.InStep files) ∧
      part.shared.nomodule = .empty ∧ part.shared.delivered = .empty := by
  intro part
  refine ⟨fun b hb => inStep_buckets hb, ?_, ?_⟩
  · rw [show part.shared = _ from shared_ofPackages, Bucket.nomodule_addAll]
  · rw [show part.shared = _ from shared_ofPackages, Bucket.delivered_addAll]

/-- A package whose scripts are all delivered by one pattern. -/
def classicScripts : Registry where
  packages := .ofList [
    (⟨"ui/package.json"⟩,
      ⟨⟨some "ui", false, .classic,
        { patterns := .ofList [(⟨"./", ""⟩,
            .ofList [(.script, .pattern ⟨"ui/", ".js"⟩)])] }, ⟨"ui"⟩⟩, none⟩)]

/-- Files of one stem beside a file that has the numbered name already, and the first of them
again in another spelling. -/
def clashingFiles : List SourceFile :=
  [⟨⟨"ui/blog/index.js"⟩, false⟩, ⟨⟨"ui/index2.js"⟩, false⟩, ⟨⟨"ui/docs/index.js"⟩, false⟩,
    ⟨⟨"./ui/blog//index.js"⟩, true⟩]

/-- The third file is numbered past the name that the second has. -/
theorem inStep_clashing :
    let part := ofRegistry classicScripts clashingFiles {} none
    ∃ b ∈ part.buckets,
      b.outputNames.entries =
        [(⟨"ui/blog/index.js"⟩, "index.js"), (⟨"ui/docs/index.js"⟩, "index3.js"),
          (⟨"ui/index2.js"⟩, "index2.js")] ∧
      b.nomodule.toList = b.inputs.toList ∧
      b.delivery? "./docs/index" .script = some "index3.js" ∧
      b.InStep clashingFiles := by
  intro part
  have hpart : part.packages.map (fun b => (b.outputNames.entries, b.nomodule.toList,
      b.delivery? "./docs/index" .script)) =
      [([(⟨"ui/blog/index.js"⟩, "index.js"), (⟨"ui/docs/index.js"⟩, "index3.js"),
          (⟨"ui/index2.js"⟩, "index2.js")],
        [⟨"ui/blog/index.js"⟩, ⟨"ui/docs/index.js"⟩, ⟨"ui/index2.js"⟩], some "index3.js")] := by
    decide +kernel
  obtain ⟨b, hb, hfields⟩ := List.mem_map.1 (hpart ▸ List.mem_singleton_self _)
  obtain ⟨hnames, hnomodule, hdelivered⟩ : _ ∧ _ ∧ _ := by simpa using hfields
  have hmem : b ∈ part.buckets := List.mem_append_left _ hb
  have hstep := (inStep_ofRegistry classicScripts clashingFiles {} none).1 b hmem
  refine ⟨b, hmem, hnames, ?_, hdelivered, hstep⟩
  rw [hnomodule, ← hstep.keys, SortedMap.keys, hnames]
  rfl

end Partition

end PackageRouting
