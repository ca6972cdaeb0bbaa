/-
PackageRouting/Proofs/ImportMap/Exact.lean

What an import map says, where the listed paths are folded.

The map is built bucket by bucket and destination by destination, and keeps what
is there already.  So a specifier is found at the first destination that adds it
(`find?_imports_ofPartition`).  Which outputs a destination may add depends on
the files behind their names; for folded paths this comes to which inputs are
wrapped (`isWrapped_eq_false_iff`).

A URL is made from the name of a package and the name of an output, and so is
the path of a file; a run of the copying bundler in which the package's bucket
does not fail has a file at that path.

Main result: `exact_ofRegistry`.
-/
import PackageRouting.Proofs.Copying
import PackageRouting.Proofs.ImportMap
import PackageRouting.Proofs.Writing

namespace PackageRouting

namespace Bucket

variable {b : Bucket} {output : String} {added : List SourceFile}

/-- The output is that of a wrapped input. -/
def IsScript (b : Bucket) (output : String) : Prop :=
  ∃ q, b.outputNames.find? q = some output ∧ b.nomodule.contains q

/-- The output is that of an input that is not wrapped. -/
def IsModule (b : Bucket) (output : String) : Prop :=
  ∃ q, b.outputNames.find? q = some output ∧ ¬ b.nomodule.contains q

/-- Where the outputs of a destination lead: to the `import` output if that is a module, and
otherwise to the `default` one if that is. -/
def LeadsTo (b : Bucket) (outputs : SortedMap Condition String) (output : String) : Prop :=
  b.IsModule output ∧ (outputs.find? .importModule = some output ∨
    outputs.find? .default = some output ∧
      ∀ first, outputs.find? .importModule = some first → ¬ b.IsModule first)

/-- A name that is reserved is that of an input. -/
theorem InStep.exists_input (h : b.InStep added) (houtput : output ∈ b.outputNames.values) :
    ∃ q ∈ b.inputs.toList, b.outputName q = output := by
  obtain ⟨q, hq⟩ := SortedMap.mem_values_iff.1 houtput
  obtain ⟨q', hsame, hmem⟩ := SortedMap.find?_eq_some_iff.1 hq
  refine ⟨q', ?_, ?_⟩
  · rw [← h.keys]
    exact List.mem_map_of_mem hmem
  · rw [outputName, ← b.outputNames.find?_congr hsame, hq, Option.getD_some]

/-- What is delivered has a name that is reserved. -/
theorem InStep.mem_values_of_delivers (h : b.InStep added) (hd : b.Delivers output) :
    output ∈ b.outputNames.values := by
  obtain ⟨d, c, hdc⟩ := hd
  exact (h.values output).2 (h.delivered d c output hdc)

/-- An output with a reserved name is a script or a module, and not both. -/
theorem InStep.not_isScript_iff (h : b.InStep added) (houtput : output ∈ b.outputNames.values) :
    ¬ b.IsScript output ↔ b.IsModule output := by
  constructor
  · intro hscript
    obtain ⟨q, hq⟩ := SortedMap.mem_values_iff.1 houtput
    exact ⟨q, hq, fun hnomodule => hscript ⟨q, hq, hnomodule⟩⟩
  · rintro ⟨q, hq, hmodule⟩ ⟨q', hq', hscript⟩
    -- both inputs have the output's name
    have hsame := Path.compare_eq_iff.2 (h.injective q q' output hq hq')
    rw [← SortedMap.contains_congr _ hsame] at hscript
    exact hmodule hscript

end Bucket

/-- The destinations of the packages, each with its outputs: in the order of the buckets, and for
one bucket in that of the destinations. -/
def Partition.destinations (p : Partition) :
    List (Bucket × String × SortedMap Condition String) :=
  p.packages.flatMap fun b => b.delivered.entries.map fun e => (b, e)

namespace ImportMap

open Orchestrator (recorded)
open Passthrough (Cache)

variable {base name k u output d : String} {b : Bucket} {m : ImportMap}
  {outputs : SortedMap Condition String} {part : Partition} {baseUrl : String}

/-! ### The first destination of a specifier -/

/-- What a destination of a bucket adds to the imports under a specifier. -/
def urlFor? (base k : String) (x : Bucket × String × SortedMap Condition String) : Option String :=
  x.1.key.name?.bind fun name =>
    if k = specifier name x.2.1 then (moduleOutput? x.1 x.2.2).map (url base name) else none

theorem urlFor?_of_key (hkey : b.key = .package name) :
    urlFor? base k (b, d, outputs) =
      if k = specifier name d then (moduleOutput? b outputs).map (url base name) else none := by
  rw [urlFor?, hkey]
  rfl

theorem find?_imports_addDestination (hkey : b.key = .package name) :
    (addDestination base name b m d outputs).imports.find? k =
      (m.imports.find? k).or (urlFor? base k (b, d, outputs)) := by
  rw [urlFor?_of_key hkey, addDestination]
  cases moduleOutput? b outputs with
  | none => simp
  | some output =>
    show (m.imports.insertNew _ _).find? k = _
    rw [SortedMap.find?_insertNew]
    by_cases hk : k = specifier name d
    · subst hk
      cases hold : m.imports.find? (specifier name d) <;> simp
    · rw [if_neg (by simpa using hk), if_neg hk, Option.or_none]

theorem find?_imports_addBucket :
    (addBucket base m b).imports.find? k =
      (m.imports.find? k).or
        ((b.delivered.entries.map fun e => (b, e)).findSome? (urlFor? base k)) := by
  cases hkey : b.key with
  | shared =>
    have hnone : (b.delivered.entries.map fun e => (b, e)).findSome? (urlFor? base k) = none := by
      rw [List.findSome?_eq_none_iff]
      intro x hx
      obtain ⟨e, -, rfl⟩ := List.mem_map.1 hx
      rw [urlFor?, hkey]
      rfl
    rw [hnone, Option.or_none, addBucket, hkey]
    rfl
  | package name =>
    rw [addBucket_of_key hkey]
    induction b.delivered.entries generalizing m with
    | nil => exact (Option.or_none).symm
    | cons e rest ih =>
      rw [List.foldl_cons, ih, find?_imports_addDestination hkey, List.map_cons,
        List.findSome?_cons, Option.or_assoc]
      cases urlFor? base k (b, e) <;> rfl

/-- **A specifier is found at the first destination that adds it.** -/
theorem find?_imports_ofPartition :
    (ofPartition part baseUrl).imports.find? k =
      part.destinations.findSome? (urlFor? (Text.trimBack '/' baseUrl) k) := by
  have hfold : ∀ (base : String) (bs : List Bucket) (m : ImportMap),
      (bs.foldl (addBucket base) m).imports.find? k = (m.imports.find? k).or
        ((bs.flatMap fun b => b.delivered.entries.map fun e => (b, e)).findSome?
          (urlFor? base k)) := by
    intro base bs
    induction bs with
    | nil => exact fun m => (Option.or_none).symm
    | cons b rest ih =>
      intro m
      rw [List.foldl_cons, ih, find?_imports_addBucket, List.flatMap_cons, List.findSome?_append,
        Option.or_assoc]
  exact (hfold _ part.packages {}).trans (Option.none_or)

/-! ### Modules and scripts -/

/-- A page may import the destination under the specifier: its `import` or its `default` output is
a module. -/
def IsImportable (k : String) (x : Bucket × String × SortedMap Condition String) : Prop :=
  ∃ name, x.1.key = .package name ∧ specifier name x.2.1 = k ∧
    ∃ c ∈ [Condition.importModule, .default], ∃ output,
      x.2.2.find? c = some output ∧ x.1.IsModule output

theorem moduleOutput?_eq :
    moduleOutput? b outputs =
      ((outputs.find? .importModule).filter fun o => !isWrapped b o).or
        ((outputs.find? .default).filter fun o => !isWrapped b o) := by
  have hlist : [Condition.importModule, .default].filterMap outputs.find? =
      (outputs.find? .importModule).toList ++ (outputs.find? .default).toList := by
    rw [List.filterMap_cons, List.filterMap_cons, List.filterMap_nil]
    cases outputs.find? .importModule <;> cases outputs.find? .default <;> rfl
  have hfind : ∀ o : Option String, o.toList.find? (fun o => !isWrapped b o) =
      o.filter fun o => !isWrapped b o := by
    rintro (_ | o)
    · rfl
    · cases hwrapped : isWrapped b o <;> simp [Option.filter, hwrapped]
  rw [moduleOutput?, hlist, List.find?_append, hfind, hfind]

section Outputs

variable (h : ∀ output ∈ outputs.values, isWrapped b output = false ↔ b.IsModule output)

include h

theorem not_isWrapped_iff {c : Condition} (hc : outputs.find? c = some output) :
    (!isWrapped b output) = true ↔ b.IsModule output := by
  rw [← h output (SortedMap.mem_values_iff.2 ⟨c, hc⟩), Bool.not_eq_true']

/-- **The map finds the output that the destination leads to.** -/
theorem moduleOutput?_eq_some_iff :
    moduleOutput? b outputs = some output ↔ b.LeadsTo outputs output := by
  rw [moduleOutput?_eq, Option.or_eq_some_iff, Option.filter_eq_some_iff, Option.filter_eq_some_iff,
    Option.filter_eq_none_iff]
  constructor
  · rintro (⟨himport, hmodule⟩ | ⟨hno, hdefault, hmodule⟩)
    · exact ⟨(not_isWrapped_iff h himport).1 hmodule, .inl himport⟩
    · refine ⟨(not_isWrapped_iff h hdefault).1 hmodule, .inr ⟨hdefault, fun first hfirst => ?_⟩⟩
      exact fun hm => hno first hfirst ((not_isWrapped_iff h hfirst).2 hm)
  · rintro ⟨hmodule, himport | ⟨hdefault, hno⟩⟩
    · exact .inl ⟨himport, (not_isWrapped_iff h himport).2 hmodule⟩
    · refine .inr ⟨fun first hfirst hm => ?_, hdefault, (not_isWrapped_iff h hdefault).2 hmodule⟩
      exact hno first hfirst ((not_isWrapped_iff h hfirst).1 hm)

theorem isSome_moduleOutput?_iff :
    (moduleOutput? b outputs).isSome ↔
      ∃ c ∈ [Condition.importModule, .default], ∃ output,
        outputs.find? c = some output ∧ b.IsModule output := by
  constructor
  · intro hsome
    obtain ⟨output, hout⟩ := Option.isSome_iff_exists.1 hsome
    obtain ⟨hmodule, himport | ⟨hdefault, -⟩⟩ := (moduleOutput?_eq_some_iff h).1 hout
    · exact ⟨.importModule, by simp, output, himport, hmodule⟩
    · exact ⟨.default, by simp, output, hdefault, hmodule⟩
  · rintro ⟨c, hmem, output, hfind, hmodule⟩
    have hkept : ((outputs.find? c).filter fun o => !isWrapped b o).isSome := by
      rw [hfind]
      simp [Option.filter, (not_isWrapped_iff h hfind).2 hmodule]
    rw [moduleOutput?_eq, Option.isSome_or, Bool.or_eq_true]
    rcases (by simpa using hmem : c = .importModule ∨ c = .default) with rfl | rfl
    · exact .inl hkept
    · exact .inr hkept

end Outputs

/-! ### Exact maps -/

/-- In a run of the copying bundler in which the package's bucket does not fail, a file comes of the
output, and one with its path is handed to the sink. -/
def Emits (part : Partition) (name output : String) : Prop :=
  ∀ {σ : Type} (src : SourceFiles) (root : Path) (o : Orchestrator Cache)
    (sink : OutputFile → StateM σ (Except SinkError Unit)) (world : σ),
    let ran := (o.run (Passthrough.bundle src root) (recorded sink) part).run ([], world)
    (∀ f ∈ ran.1.2.failures, f.bucket ≠ .package name) →
      (∃ file ∈ (o.bundle (Passthrough.bundle src root) part).2.files,
        file.path = (o.outDir.join name).join output) ∧
      ∃ x ∈ ran.2.1, x.1.path ≈ (o.outDir.join name).join output

/-- The map says what can be imported from a partition, and which outputs are scripts. -/
structure IsExact (part : Partition) (base : String) (map : ImportMap) : Prop where
  /-- A specifier is there iff some destination with that specifier has a module. -/
  imports : ∀ k, map.imports.contains k ↔ ∃ x ∈ part.destinations, IsImportable k x
  /-- It leads where the first such destination leads. -/
  first : ∀ k u, map.imports.find? k = some u ↔
    ∃ x, IsFirst (IsImportable k) part.destinations x ∧
      ∃ name output, x.1.key = .package name ∧ x.1.LeadsTo x.2.2 output ∧ u = url base name output
  scripts : ∀ u, map.scripts.contains u ↔
    ∃ b ∈ part.packages, ∃ name output, b.key = .package name ∧ b.Delivers output ∧
      b.IsScript output ∧ u = url base name output
  /-- Behind every URL is an output of a bucket, and a file. -/
  emitted : ∀ u, u ∈ map.imports.values ∨ map.scripts.contains u →
    ∃ b ∈ part.packages, ∃ name, b.key = .package name ∧ ∃ output ∈ b.outputNames.values,
      u = base ++ "/" ++ name ++ "/" ++ output ∧ Emits part name output

section Exact

variable {r : Registry} {files : List SourceFile} {policy : Policy}
  {fallback : Option DefaultDelivery} {x : Bucket × String × SortedMap Condition String}

theorem emits_of_mem_values (hb : b ∈ (Partition.ofRegistry r files policy fallback).packages)
    (hkey : b.key = .package name) (houtput : output ∈ b.outputNames.values) :
    Emits (.ofRegistry r files policy fallback) name output := by
  intro σ src root o sink world ran hok
  obtain ⟨q, hq, rfl⟩ := (Partition.inStep_packages hb).exists_input houtput
  have hplace : o.copyPath (b, q) = (o.outDir.join name).join (b.outputName q) := by
    rw [Orchestrator.copyPath, hkey]
    rfl
  rw [← hkey] at hok
  obtain ⟨file, hfile, hpath⟩ := Orchestrator.exists_file_of_mem_inputs
    (List.mem_append_left _ hb) hq hok
  obtain ⟨x, hx, hsame⟩ : ∃ x ∈ ran.2.1, x.1.path ≈ file.path :=
    Orchestrator.exists_mem_log hfile
  rw [hplace] at hpath
  rw [hpath] at hsame
  exact ⟨⟨file, hfile, hpath⟩, x, hx, hsame⟩

variable (hfolded : ∀ f ∈ files, f.path.IsFolded)

include hfolded

/-- **Where the listed paths are folded, the map takes an output for wrapped iff its input is.** -/
theorem isWrapped_iff_isScript
    (hb : b ∈ (Partition.ofRegistry r files policy fallback).packages)
    (houtput : output ∈ b.outputNames.values) :
    isWrapped b output = true ↔ b.IsScript output := by
  have hstep : b.InStep files := Partition.inStep_packages hb
  obtain ⟨q, hq⟩ := SortedMap.mem_values_iff.1 houtput
  obtain ⟨f, -, hf⟩ := hstep.first q output hq
  rw [isWrapped_iff hb hq hf, and_iff_left (hfolded f hf.mem)]
  constructor
  · exact fun h => ⟨q, hq, h⟩
  · rintro ⟨q', hq', h⟩
    rwa [b.nomodule.contains_congr (Path.compare_eq_iff.2 (hstep.injective q q' output hq hq'))]

theorem isWrapped_eq_false_iff
    (hb : b ∈ (Partition.ofRegistry r files policy fallback).packages)
    (houtput : output ∈ b.outputNames.values) :
    isWrapped b output = false ↔ b.IsModule output := by
  rw [← (Partition.inStep_packages hb).not_isScript_iff houtput,
    ← isWrapped_iff_isScript hfolded hb houtput, Bool.not_eq_true]

/-- A destination belongs to the bucket of a package, which delivers its outputs. -/
theorem exists_of_mem_destinations
    (hx : x ∈ (Partition.ofRegistry r files policy fallback).destinations) :
    ∃ b ∈ (Partition.ofRegistry r files policy fallback).packages, ∃ name d outputs,
      x = (b, d, outputs) ∧ b.key = .package name ∧
        ∀ output ∈ outputs.values, isWrapped b output = false ↔ b.IsModule output := by
  obtain ⟨b, hb, hmem⟩ := List.mem_flatMap.1 hx
  obtain ⟨⟨d, outputs⟩, he, rfl⟩ := List.mem_map.1 hmem
  obtain ⟨name, hname⟩ := Partition.exists_name_of_mem_packages hb
  refine ⟨b, hb, name, d, outputs, rfl, hname, fun output ho => ?_⟩
  have hdelivers : b.Delivers output := Bucket.delivers_iff.2 ⟨_, he, ho⟩
  exact isWrapped_eq_false_iff hfolded hb
    ((Partition.inStep_packages hb).mem_values_of_delivers hdelivers)

/-- A destination adds something exactly if it is importable. -/
theorem isSome_urlFor?_iff
    (hx : x ∈ (Partition.ofRegistry r files policy fallback).destinations) :
    (urlFor? base k x).isSome ↔ IsImportable k x := by
  obtain ⟨b, -, name, d, outputs, rfl, hkey, hvalues⟩ := exists_of_mem_destinations hfolded hx
  rw [urlFor?_of_key hkey]
  constructor
  · intro h
    split at h
    · next hk =>
      rw [Option.isSome_map, isSome_moduleOutput?_iff hvalues] at h
      exact ⟨name, hkey, hk.symm, h⟩
    · cases h
  · rintro ⟨name', hkey', rfl, h⟩
    obtain rfl : name = name' := BucketKey.package.inj (hkey.symm.trans hkey')
    rw [if_pos rfl, Option.isSome_map, isSome_moduleOutput?_iff hvalues]
    exact h

/-- What an importable destination adds is the URL of the output that it leads to. -/
theorem urlFor?_eq_some_iff
    (hx : x ∈ (Partition.ofRegistry r files policy fallback).destinations)
    (h : IsImportable k x) :
    urlFor? base k x = some u ↔ ∃ name output, x.1.key = .package name ∧
      x.1.LeadsTo x.2.2 output ∧ u = url base name output := by
  obtain ⟨b, -, name, d, outputs, rfl, hkey, hvalues⟩ := exists_of_mem_destinations hfolded hx
  obtain ⟨name', hkey', rfl, -⟩ := h
  obtain rfl : name = name' := BucketKey.package.inj (hkey.symm.trans hkey')
  rw [urlFor?_of_key hkey, if_pos rfl, Option.map_eq_some_iff]
  constructor
  · rintro ⟨output, hout, rfl⟩
    exact ⟨name, output, hkey, (moduleOutput?_eq_some_iff hvalues).1 hout, rfl⟩
  · rintro ⟨name', output, hkey', hleads, rfl⟩
    obtain rfl : name = name' := BucketKey.package.inj (hkey.symm.trans hkey')
    exact ⟨output, (moduleOutput?_eq_some_iff hvalues).2 hleads, rfl⟩

end Exact

/-- **The import map is exact, and points at files that are emitted**, if the listed paths are
folded. -/
theorem exact_ofRegistry (r : Registry) (files : List SourceFile) (policy : Policy)
    (fallback : Option DefaultDelivery) (baseUrl : String)
    (hfolded : ∀ f ∈ files, f.path.IsFolded) :
    let part := Partition.ofRegistry r files policy fallback
    (ofPartition part baseUrl).IsExact part (Text.trimBack '/' baseUrl) := by
  intro part
  have hstep : ∀ b ∈ part.packages, b.InStep files := fun b hb => Partition.inStep_packages hb
  refine ⟨fun k => ?_, fun k u => ?_, fun u => ?_, fun u hu => ?_⟩
  · rw [SortedMap.contains, find?_imports_ofPartition, List.findSome?_isSome_iff]
    exact exists_congr fun x => and_congr_right fun hx => isSome_urlFor?_iff hfolded hx
  · rw [find?_imports_ofPartition, findSome?_eq_some_iff_isFirst]
    apply exists_congr
    intro x
    constructor
    · rintro ⟨hfirst, hurl⟩
      have hfirst := hfirst.congr fun y hy => isSome_urlFor?_iff hfolded hy
      exact ⟨hfirst, (urlFor?_eq_some_iff hfolded hfirst.mem hfirst.prop).1 hurl⟩
    · rintro ⟨hfirst, hurl⟩
      refine ⟨hfirst.congr fun y hy => (isSome_urlFor?_iff hfolded hy).symm, ?_⟩
      exact (urlFor?_eq_some_iff hfolded hfirst.mem hfirst.prop).2 hurl
  · rw [contains_scripts_ofPartition]
    refine exists_congr fun b => and_congr_right fun hb => ?_
    refine exists_congr fun name => exists_congr fun output => and_congr_right fun _ => ?_
    refine and_congr_right fun hdelivers => and_congr_left fun _ => ?_
    exact isWrapped_iff_isScript hfolded hb ((hstep b hb).mem_values_of_delivers hdelivers)
  · obtain ⟨b, hb, name, output, hkey, hdelivers, rfl⟩ : ∃ b ∈ part.packages, ∃ name output,
        b.key = .package name ∧ b.Delivers output ∧
          u = url (Text.trimBack '/' baseUrl) name output := by
      rcases hu with hu | hu
      · obtain ⟨b, hb, name, output, hkey, hdelivers, -, rfl⟩ := exists_bucket_of_mem_imports hu
        exact ⟨b, hb, name, output, hkey, hdelivers, rfl⟩
      · obtain ⟨b, hb, name, output, hkey, hdelivers, -, rfl⟩ := contains_scripts_ofPartition.1 hu
        exact ⟨b, hb, name, output, hkey, hdelivers, rfl⟩
    have houtput := (hstep b hb).mem_values_of_delivers hdelivers
    exact ⟨b, hb, name, hkey, output, houtput, rfl, emits_of_mem_values hb hkey houtput⟩

/-- Two packages with a specifier in common; one delivers a file as a module and as a script. -/
def colliding : Registry where
  packages := .ofList [
    (⟨"a/package.json"⟩,
      ⟨⟨some "a", false, .classic,
        { exact := .ofList [
            ("./b", .ofList [(.importModule, .path ⟨"a/w.js"⟩), (.default, .path ⟨"a/d.js"⟩)]),
            ("./old", .ofList [(.script, .path ⟨"a/w.js"⟩)])] }, ⟨"a"⟩⟩, none⟩),
    (⟨"b/package.json"⟩,
      ⟨⟨some "a/b", false, .classic,
        { exact := .ofList [(".", .ofList [(.importModule, .path ⟨"b/x.js"⟩)])] },
        ⟨"b"⟩⟩, none⟩)]

def collidingFiles : List SourceFile :=
  [⟨⟨"b/x.js"⟩, false⟩, ⟨⟨"a/d.js"⟩, false⟩, ⟨⟨"a//w.js"⟩, false⟩]

/-- The package in front has the specifier, which leads to its `default` output since the `import`
one is wrapped. -/
theorem exact_colliding :
    let part := Partition.ofRegistry colliding collidingFiles {} (some .importModule)
    let map := ofPartition part "/"
    (∀ f ∈ collidingFiles, f.path.IsFolded) ∧
      map.imports.entries = [("a/b", "/a/d.js")] ∧ map.scripts.toList = ["/a/w.js"] ∧
      map.IsExact part "" := by
  intro part map
  have hfolded : ∀ f ∈ collidingFiles, f.path.IsFolded := by decide +kernel
  exact ⟨hfolded, by decide +kernel, by decide +kernel,
    exact_ofRegistry colliding collidingFiles {} (some .importModule) "/" hfolded⟩

end ImportMap

end PackageRouting
