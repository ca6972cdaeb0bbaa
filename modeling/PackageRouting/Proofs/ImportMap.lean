/-
PackageRouting/Proofs/ImportMap.lean

Import maps and wrapping: which URLs a page may import, and which are scripts.

A URL tells the package and the output apart again, because an output has no
slash (`url_injective`), so every URL of a map comes from one output of one
bucket.  The map looks an output up by the path of its file, as that path is
spelled, while the wrapped inputs are normal forms.  The two agree on the
outputs whose file has a folded path (`isWrapped_iff`), and on no other wrapped
output: that one counts as a module.

Main results: `contains_scripts_ofPartition`, `exists_bucket_of_mem_imports`, and
`agrees_ofRegistry` (where the map and the wrapping agree).
-/
import PackageRouting.ImportMap
import PackageRouting.Output
import PackageRouting.Proofs.InStep

namespace PackageRouting

namespace Bucket

variable {b : Bucket} {output : String} {added : List SourceFile}

/-- The output is delivered for some destination under some condition. -/
def Delivers (b : Bucket) (output : String) : Prop := ∃ d c, b.delivery? d c = some output

theorem delivers_iff : b.Delivers output ↔ ∃ e ∈ b.delivered.entries, output ∈ e.2.values := by
  constructor
  · rintro ⟨d, c, h⟩
    obtain ⟨outputs, hd, hc⟩ := Option.bind_eq_some_iff.1 h
    exact ⟨(d, outputs), SortedMap.mem_entries_iff.2 hd, SortedMap.mem_values_iff.2 ⟨c, hc⟩⟩
  · rintro ⟨⟨d, outputs⟩, he, ho⟩
    obtain ⟨c, hc⟩ := SortedMap.mem_values_iff.1 ho
    exact ⟨d, c, Option.bind_eq_some_iff.2 ⟨outputs, SortedMap.mem_entries_iff.1 he, hc⟩⟩

/-- An output name has no slash. -/
theorem InStep.slash_notMem (h : b.InStep added) (houtput : output ∈ b.files.keys) :
    '/' ∉ output.toList := by
  obtain ⟨hcomp, -⟩ := h.singleStep output ((h.values output).2 houtput)
  have hmem : Component.name output ∈ (⟨output⟩ : Path).components := by simp [hcomp]
  exact ((Path.wellFormed_components _).isInner_of_mem hmem (by simp) (by simp)).2.2.2

theorem InStep.slash_notMem_of_delivers (h : b.InStep added) (hd : b.Delivers output) :
    '/' ∉ output.toList := by
  obtain ⟨d, c, hdc⟩ := hd
  exact h.slash_notMem (h.delivered d c output hdc)

end Bucket

namespace ImportMap

variable {base name name' output output' destination u : String} {b : Bucket} {m : ImportMap}
  {conditions : SortedMap Condition String}

/-! ### URLs -/

/-- **A URL tells the package and the output apart again.** -/
theorem url_injective (h : '/' ∉ output.toList) (h' : '/' ∉ output'.toList)
    (heq : url base name output = url base name' output') : name = name' ∧ output = output' := by
  have hcut : ∀ name output : String, '/' ∉ output.toList →
      Text.cutAtLast '/' (url base name output).toList =
        some ((base ++ "/" ++ name).toList, output.toList) := by
    intro name output h
    have htext : (url base name output).toList =
        (base ++ "/" ++ name).toList ++ '/' :: output.toList := by
      simp [url]
    rw [htext, Text.cutAtLast_of_notMem h]
  have hparts := (hcut name output h).symm.trans (heq ▸ hcut name' output' h')
  obtain ⟨hfront, hback⟩ := Prod.mk.inj (Option.some.inj hparts)
  exact ⟨(String.append_right_inj _).1 (String.toList_inj.1 hfront), String.toList_inj.1 hback⟩

/-! ### Where the URLs of a map come from -/

/-- The URL is that of an output which the bucket of a package delivers, and which the map takes
for wrapped or not as said. -/
def IsUrlIn (base : String) (b : Bucket) (wrapped : Bool) (u : String) : Prop :=
  ∃ name output, b.key = .package name ∧ b.Delivers output ∧ isWrapped b output = wrapped ∧
    u = url base name output

theorem contains_scripts_addDestination :
    (addDestination base name b m destination conditions).scripts.contains u ↔
      m.scripts.contains u ∨
        ∃ output ∈ conditions.values, isWrapped b output = true ∧ u = url base name output := by
  have hscripts : (addDestination base name b m destination conditions).scripts =
      ((conditions.values.filter (isWrapped b)).map (url base name)).foldl SortedSet.insert
        m.scripts := by
    rw [List.foldl_map]
    rfl
  rw [hscripts, SortedSet.contains_foldl_insert]
  apply or_congr_right
  constructor
  · rintro ⟨v, hv, hu⟩
    obtain ⟨output, hmem, rfl⟩ := List.mem_map.1 hv
    obtain ⟨hvalue, hwrapped⟩ := List.mem_filter.1 hmem
    exact ⟨output, hvalue, hwrapped, Std.compare_eq_iff_eq.1 hu⟩
  · rintro ⟨output, hvalue, hwrapped, rfl⟩
    exact ⟨_, List.mem_map_of_mem (List.mem_filter.2 ⟨hvalue, hwrapped⟩),
      Std.compare_eq_iff_eq.2 rfl⟩

theorem moduleOutput?_spec (h : moduleOutput? b conditions = some output) :
    output ∈ conditions.values ∧ isWrapped b output = false := by
  constructor
  · obtain ⟨c, -, hc⟩ := List.mem_filterMap.1 (List.mem_of_find?_eq_some h)
    exact SortedMap.mem_values_iff.2 ⟨c, hc⟩
  · simpa using List.find?_some h

theorem mem_imports_addDestination
    (h : u ∈ (addDestination base name b m destination conditions).imports.values) :
    u ∈ m.imports.values ∨
      ∃ output ∈ conditions.values, isWrapped b output = false ∧ u = url base name output := by
  rw [addDestination] at h
  cases hout : moduleOutput? b conditions with
  | none =>
    rw [hout] at h
    exact .inl h
  | some output =>
    rw [hout] at h
    obtain ⟨hmem, hwrapped⟩ := moduleOutput?_spec hout
    rcases SortedMap.mem_values_insertNew h with rfl | h
    · exact .inr ⟨output, hmem, hwrapped, rfl⟩
    · exact .inl h

/-- The URLs of a bucket's outputs, destination by destination. -/
theorem isUrlIn_iff (hkey : b.key = .package name) {wrapped : Bool} :
    IsUrlIn base b wrapped u ↔ ∃ e ∈ b.delivered.entries, ∃ output ∈ e.2.values,
      isWrapped b output = wrapped ∧ u = url base name output := by
  constructor
  · rintro ⟨name', output, hkey', hdelivers, hwrapped, hu⟩
    obtain rfl : name = name' := BucketKey.package.inj (hkey.symm.trans hkey')
    obtain ⟨e, he, houtput⟩ := Bucket.delivers_iff.1 hdelivers
    exact ⟨e, he, output, houtput, hwrapped, hu⟩
  · rintro ⟨e, he, output, houtput, hwrapped, hu⟩
    exact ⟨name, output, hkey, Bucket.delivers_iff.2 ⟨e, he, houtput⟩, hwrapped, hu⟩

theorem addBucket_of_key (hkey : b.key = .package name) :
    addBucket base m b =
      b.delivered.entries.foldl (fun m d => addDestination base name b m d.1 d.2) m := by
  rw [addBucket, hkey]
  rfl

theorem not_isUrlIn_shared (hkey : b.key = .shared) {wrapped : Bool} :
    ¬ IsUrlIn base b wrapped u := by
  rintro ⟨name, output, hkey', -⟩
  rw [hkey] at hkey'
  cases hkey'

/-- A bucket adds the wrapped outputs that it delivers to the scripts. -/
theorem contains_scripts_addBucket :
    (addBucket base m b).scripts.contains u ↔ m.scripts.contains u ∨ IsUrlIn base b true u := by
  cases hkey : b.key with
  | shared =>
    have hskip : addBucket base m b = m := by
      rw [addBucket, hkey]
      rfl
    rw [hskip]
    exact (or_iff_left (not_isUrlIn_shared hkey)).symm
  | package name =>
    rw [addBucket_of_key hkey, isUrlIn_iff hkey]
    -- destination by destination
    induction b.delivered.entries generalizing m with
    | nil => simp
    | cons d rest ih =>
      rw [List.foldl_cons, ih, contains_scripts_addDestination, or_assoc]
      simp only [List.mem_cons, exists_eq_or_imp]

/-- What a bucket adds to the imports are outputs that it delivers and that are not wrapped. -/
theorem mem_imports_addBucket (h : u ∈ (addBucket base m b).imports.values) :
    u ∈ m.imports.values ∨ IsUrlIn base b false u := by
  cases hkey : b.key with
  | shared =>
    rw [addBucket, hkey] at h
    exact .inl h
  | package name =>
    rw [addBucket_of_key hkey] at h
    rw [isUrlIn_iff hkey]
    generalize b.delivered.entries = entries at h ⊢
    induction entries generalizing m with
    | nil => exact .inl h
    | cons d rest ih =>
      rcases ih h with h | ⟨e, he, hrest⟩
      · rcases mem_imports_addDestination h with h | h
        · exact .inl h
        · exact .inr ⟨d, List.mem_cons_self, h⟩
      · exact .inr ⟨e, List.mem_cons_of_mem d he, hrest⟩

variable {part : Partition} {baseUrl : String}

/-- **The scripts of a map are the wrapped outputs that are delivered.** -/
theorem contains_scripts_ofPartition :
    (ofPartition part baseUrl).scripts.contains u ↔
      ∃ b ∈ part.packages, IsUrlIn (Text.trimBack '/' baseUrl) b true u := by
  have hfold : ∀ (bs : List Bucket) (m : ImportMap),
      (bs.foldl (addBucket (Text.trimBack '/' baseUrl)) m).scripts.contains u ↔
        m.scripts.contains u ∨ ∃ b ∈ bs, IsUrlIn (Text.trimBack '/' baseUrl) b true u := by
    intro bs
    induction bs with
    | nil => intro m; simp
    | cons b rest ih =>
      intro m
      rw [List.foldl_cons, ih, contains_scripts_addBucket, or_assoc]
      simp only [List.mem_cons, exists_eq_or_imp]
  rw [ofPartition, hfold]
  exact or_iff_right Bool.false_ne_true

/-- **What can be imported is delivered, and not wrapped.** -/
theorem exists_bucket_of_mem_imports (h : u ∈ (ofPartition part baseUrl).imports.values) :
    ∃ b ∈ part.packages, IsUrlIn (Text.trimBack '/' baseUrl) b false u := by
  have hfold : ∀ (bs : List Bucket) (m : ImportMap),
      u ∈ (bs.foldl (addBucket (Text.trimBack '/' baseUrl)) m).imports.values →
        u ∈ m.imports.values ∨ ∃ b ∈ bs, IsUrlIn (Text.trimBack '/' baseUrl) b false u := by
    intro bs
    induction bs with
    | nil => exact fun m h => .inl h
    | cons b rest ih =>
      intro m h
      rcases ih _ h with h | ⟨b', hb', h⟩
      · rcases mem_imports_addBucket h with h | h
        · exact .inl h
        · exact .inr ⟨b, List.mem_cons_self, h⟩
      · exact .inr ⟨b', List.mem_cons_of_mem b hb', h⟩
  rcases hfold _ _ h with h | h
  · cases h
  · exact h

/-! ### Where the map and the wrapping agree -/

section Agreement

variable {r : Registry} {files : List SourceFile} {policy : Policy}
  {fallback : Option DefaultDelivery} {q : Path} {f : SourceFile}

/-- **The map takes an output for wrapped if its input is wrapped and the path of its file is
folded.**  The file is looked up by its path as it is spelled. -/
theorem isWrapped_iff (hb : b ∈ (Partition.ofRegistry r files policy fallback).packages)
    (hq : b.outputNames.find? q = some output)
    (hf : IsFirst (fun f => f.path.normalize ≈ q) files f) :
    isWrapped b output = true ↔ b.nomodule.contains q ∧ f.path.IsFolded := by
  have hstep : b.InStep files := Partition.inStep_packages hb
  obtain ⟨f', hfile, hfirst⟩ := hstep.first q output hq
  obtain rfl : f = f' := hf.unique hfirst
  have hnormal : f.path.normalize ≈ q := hf.prop
  have hlookup : isWrapped b output = b.nomodule.contains f.path := by
    rw [isWrapped, hfile]
    rfl
  -- a folded path finds the input, whatever its spelling
  have hfold : f.path.IsFolded → b.nomodule.contains f.path = b.nomodule.contains q := by
    intro hfolded
    apply SortedMap.contains_congr
    exact Path.compare_eq_iff.2 (Path.equiv_trans (Path.equiv_symm hfolded) hnormal)
  rw [hlookup]
  constructor
  · intro h
    -- what is found is a normal form, so the path is folded
    obtain ⟨i, hi⟩ := List.mem_iff_getElem?.1 hb
    obtain ⟨g, -, hg, -⟩ := (Partition.contains_nomodule_packages hi).1 h
    have hfolded : f.path.IsFolded := (Path.isFolded_normalize g.path).congr (Path.equiv_symm hg)
    exact ⟨hfold hfolded ▸ h, hfolded⟩
  · rintro ⟨h, hfolded⟩
    rw [hfold hfolded]
    exact h

/-- An output with the URL of another one is that output. -/
theorem eq_of_url_eq {b' : Bucket}
    (hb : b ∈ (Partition.ofRegistry r files policy fallback).packages)
    (hb' : b' ∈ (Partition.ofRegistry r files policy fallback).packages)
    (hkey : b.key = .package name) (hkey' : b'.key = .package name')
    (h : '/' ∉ output.toList) (h' : '/' ∉ output'.toList)
    (heq : url base name output = url base name' output') : b = b' ∧ output = output' := by
  obtain ⟨rfl, rfl⟩ := url_injective h h' heq
  exact ⟨Partition.eq_of_key_eq hb hb' (hkey.trans hkey'.symm), rfl⟩

end Agreement

/-- **The import map agrees with the wrapping on every output whose file has a folded path.**  Such
an output cannot be imported when its input is wrapped, and is among the scripts when it is also
delivered.  The outputs of all other files count as modules, and are never among the scripts. -/
theorem agrees_ofRegistry (r : Registry) (files : List SourceFile) (policy : Policy)
    (fallback : Option DefaultDelivery) (baseUrl : String) :
    let part := Partition.ofRegistry r files policy fallback
    let map := ofPartition part baseUrl
    ∀ b ∈ part.packages, ∀ name, b.key = .package name →
      ∀ q output, b.outputNames.find? q = some output →
        ∀ f, IsFirst (fun f => f.path.normalize ≈ q) files f →
          let u := url (Text.trimBack '/' baseUrl) name output
          (∀ c : Chunk, c.entry = some q →
            (isWrapped b output = true ↔ OutputFile.isWrapped b c = true ∧ f.path.IsFolded)) ∧
          (b.nomodule.contains q → f.path.IsFolded → u ∉ map.imports.values) ∧
          (b.Delivers output →
            (map.scripts.contains u ↔ b.nomodule.contains q ∧ f.path.IsFolded)) := by
  intro part map b hb name hkey q output hq f hf u
  have hwrapped := isWrapped_iff hb hq hf
  have hinstep : ∀ b ∈ part.packages, b.InStep files := fun b hb => Partition.inStep_packages hb
  have hslash : '/' ∉ output.toList := by
    refine (hinstep b hb).slash_notMem (((hinstep b hb).values output).1 ?_)
    exact SortedMap.mem_values_iff.2 ⟨q, hq⟩
  -- an output of the map with this URL is this output
  have hsame : ∀ {b' wrapped}, b' ∈ part.packages →
      IsUrlIn (Text.trimBack '/' baseUrl) b' wrapped u → isWrapped b output = wrapped := by
    rintro b' wrapped hb' ⟨name', output', hkey', hdelivers, hwrapped', hu⟩
    have hslash' := (hinstep b' hb').slash_notMem_of_delivers hdelivers
    obtain ⟨rfl, rfl⟩ := eq_of_url_eq hb hb' hkey hkey' hslash hslash' hu
    exact hwrapped'
  refine ⟨?_, ?_, ?_⟩
  · intro c hc
    rw [hwrapped, OutputFile.isWrapped, hc]
    rfl
  · intro hnomodule hfolded hu
    obtain ⟨b', hb', hurl⟩ := exists_bucket_of_mem_imports hu
    have hno := hsame hb' hurl
    rw [hwrapped.2 ⟨hnomodule, hfolded⟩] at hno
    cases hno
  · intro hdelivers
    rw [← hwrapped]
    constructor
    · intro hu
      obtain ⟨b', hb', hurl⟩ := contains_scripts_ofPartition.1 hu
      exact hsame hb' hurl
    · intro h
      exact contains_scripts_ofPartition.2 ⟨b, hb, name, output, hkey, hdelivers, h, rfl⟩

/-- A package that delivers one file as a module and as a script. -/
def moduleAndScript : Registry where
  packages := .ofList [
    (⟨"ui/package.json"⟩,
      ⟨⟨some "ui", false, .classic,
        { exact := .ofList [(".",
            .ofList [(.importModule, .path ⟨"ui/w.js"⟩), (.script, .path ⟨"ui/w.js"⟩)])] },
        ⟨"ui"⟩⟩, none⟩)]

/-- The buckets of the package when its file is listed under a given path. -/
def moduleAndScriptPart (p : Path) : Partition :=
  Partition.ofRegistry moduleAndScript [⟨p, false⟩] {} none

/-- The file is wrapped and delivered, however its path is spelled. -/
theorem exists_bucket_moduleAndScript {p : Path}
    (h : (moduleAndScriptPart p).packages.map (fun b => (b.key, b.outputNames.find? ⟨"ui/w.js"⟩,
      b.nomodule.contains ⟨"ui/w.js"⟩, b.delivery? "." .script)) =
        [(.package "ui", some "w.js", true, some "w.js")]) :
    ∃ b ∈ (moduleAndScriptPart p).packages, b.key = .package "ui" ∧
      b.outputNames.find? ⟨"ui/w.js"⟩ = some "w.js" ∧ b.nomodule.contains ⟨"ui/w.js"⟩ = true ∧
      b.Delivers "w.js" := by
  obtain ⟨b, hb, hfields⟩ := List.mem_map.1 (h ▸ List.mem_singleton_self _)
  obtain ⟨hkey, hname, hnomodule, hdelivered⟩ : _ ∧ _ ∧ _ ∧ _ := by simpa using hfields
  exact ⟨b, hb, hkey, hname, hnomodule, ".", .script, hdelivered⟩

/-- A doubled slash is no harm: the output is a script and cannot be imported. -/
theorem agrees_doubledSlash :
    let part := moduleAndScriptPart ⟨"ui//w.js"⟩
    let map := ofPartition part "/"
    ∃ b ∈ part.packages, b.key = .package "ui" ∧
      b.outputNames.find? ⟨"ui/w.js"⟩ = some "w.js" ∧ b.nomodule.contains ⟨"ui/w.js"⟩ = true ∧
      b.Delivers "w.js" ∧ "/ui/w.js" ∉ map.imports.values ∧ map.scripts.contains "/ui/w.js" := by
  intro part map
  obtain ⟨b, hb, hkey, hname, hnomodule, hdelivers⟩ :=
    exists_bucket_moduleAndScript (p := ⟨"ui//w.js"⟩) (by decide +kernel)
  have hfirst : IsFirst (fun f : SourceFile => f.path.normalize ≈ ⟨"ui/w.js"⟩)
      [⟨⟨"ui//w.js"⟩, false⟩] ⟨⟨"ui//w.js"⟩, false⟩ :=
    ⟨[], [], rfl, by decide +kernel, by simp⟩
  have hfolded : (⟨"ui//w.js"⟩ : Path).IsFolded := by decide +kernel
  obtain ⟨-, himports, hscripts⟩ := agrees_ofRegistry moduleAndScript [⟨⟨"ui//w.js"⟩, false⟩] {} none
    "/" b hb "ui" hkey ⟨"ui/w.js"⟩ "w.js" hname _ hfirst
  exact ⟨b, hb, hkey, hname, hnomodule, hdelivers, himports hnomodule hfolded,
    (hscripts hdelivers).2 ⟨hnomodule, hfolded⟩⟩

/-- **A leading `.` is enough for the map to miss that an output is wrapped.** -/
theorem not_forall_agrees :
    ¬ ∀ (r : Registry) (files : List SourceFile) (policy : Policy)
        (fallback : Option DefaultDelivery) (baseUrl : String),
      let part := Partition.ofRegistry r files policy fallback
      let map := ofPartition part baseUrl
      ∀ b ∈ part.packages, ∀ name, b.key = .package name →
        ∀ q output, b.outputNames.find? q = some output → b.nomodule.contains q →
          let u := url (Text.trimBack '/' baseUrl) name output
          u ∉ map.imports.values ∧ (b.Delivers output → map.scripts.contains u) := by
  intro h
  obtain ⟨b, hb, hkey, hname, hnomodule, hdelivers⟩ :=
    exists_bucket_moduleAndScript (p := ⟨"./ui/w.js"⟩) (by decide +kernel)
  obtain ⟨himports, -⟩ := h moduleAndScript [⟨⟨"./ui/w.js"⟩, false⟩] {} none "/" b hb "ui" hkey
    ⟨"ui/w.js"⟩ "w.js" hname hnomodule
  apply himports
  decide +kernel

end ImportMap

end PackageRouting
