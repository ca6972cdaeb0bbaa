/-
PackageRouting/Proofs/Copying.lean

A run of the copying bundler over a partition, from the disk to the sink.

Each input of a bucket is copied once, under its reserved name, into the
bucket's directory (`forall₂_filesOf`).  No two copies have one path.  An output
name is a single step, so a path ends in the name and begins with the directory;
the names of one bucket differ, and the directories of two buckets do if the
packages have directories of their own (`pairwise_inputs`).

Where nothing is known of the tokens, and files may be missing, a bucket still
leaves one file for each of its inputs unless it fails (`map_path_filesOf`).

Main results: `transparent_of_current` (current tokens do not show in the
answers) and `run_ofRegistry` (what a run hands over and reports).
-/
import PackageRouting.Proofs.Disk.Tree
import PackageRouting.Proofs.InStep
import PackageRouting.Proofs.Orchestrator
import PackageRouting.Proofs.Passthrough
import PackageRouting.Proofs.Text.Utf8

namespace PackageRouting

/-! ### Reading -/

/-- A file that can be read has a status. -/
theorem Disk.exists_status_of_read {disk : Disk} {p : Path} {bytes : List UInt8}
    (h : disk.read p = .ok bytes) : ∃ s, disk.status p = .ok s := by
  rw [read] at h
  rw [status]
  cases hnode : disk.node p with
  | error e =>
    rw [hnode] at h
    cases h
  | ok node =>
    rw [hnode] at h
    cases node with
    | file bytes modified => exact ⟨_, rfl⟩
    | directory entries => cases h
    | link target => cases h

theorem SourceFiles.readable_ofDisk {disk : Disk} {place : Path} {bytes : List UInt8}
    (h : disk.read place = .ok bytes) :
    ∃ stamp, (ofDisk disk).stamp place = .ok stamp ∧
      (ofDisk disk).text place = .ok (Text.decodeLossy bytes) := by
  obtain ⟨s, hs⟩ := Disk.exists_status_of_read h
  refine ⟨⟨s.size, s.modified⟩, ?_, ?_⟩
  · show (disk.status place).map _ = _
    rw [hs]
    rfl
  · show (disk.read place).map _ = _
    rw [h]
    rfl

/-! ### The directories of buckets -/

/-- The components of a bucket's directory, below the directory of all outputs. -/
def BucketKey.directory : BucketKey → List Component
  | shared => []
  | package name => (⟨name⟩ : Path).components

namespace Partition

/-- The packages' names consist of one or more names of directories, and are pairwise different
paths. -/
structure HasDirectories (p : Partition) : Prop where
  names : ∀ b ∈ p.packages, ∀ name, b.key = .package name →
    (⟨name⟩ : Path).components ≠ [] ∧ ∀ c ∈ (⟨name⟩ : Path).components, c.isName
  distinct : p.packages.Pairwise fun b b' => ∀ name name', b.key = .package name →
    b'.key = .package name' → ¬ (⟨name⟩ : Path) ≈ ⟨name'⟩

/-- The inputs of all buckets. -/
def inputs (p : Partition) : List (Bucket × Path) :=
  p.buckets.flatMap fun b => b.inputs.toList.map fun q => (b, q)

section Directories

variable {fallback : Option DefaultDelivery} {packages : List (String × Package)}
  {files : List SourceFile} {b : Bucket}

/-- The inputs are normal forms. -/
theorem exists_normalize_of_mem_inputs (hb : b ∈ (ofPackages fallback packages files).buckets)
    {q : Path} (hq : q ∈ b.inputs.toList) : ∃ p : Path, q = p.normalize := by
  obtain ⟨f, -, hf⟩ := exists_file_of_mem_inputs hb hq
  exact ⟨f.path, hf⟩

theorem exists_name_of_mem_packages (hb : b ∈ (ofPackages fallback packages files).packages) :
    ∃ name, b.key = .package name := by
  have hmem := List.mem_map_of_mem (f := Bucket.key) hb
  rw [keys_packages_ofPackages] at hmem
  obtain ⟨a, -, ha⟩ := List.mem_map.1 hmem
  exact ⟨a.1, ha.symm⟩

theorem key_shared : (ofPackages fallback packages files).shared.key = .shared := by
  rw [shared_ofPackages, Bucket.key_addAll]

theorem HasDirectories.isName (h : (ofPackages fallback packages files).HasDirectories)
    (hb : b ∈ (ofPackages fallback packages files).buckets) :
    ∀ c ∈ b.key.directory, c.isName := by
  rcases List.mem_append.1 hb with hb | hb
  · obtain ⟨name, hname⟩ := exists_name_of_mem_packages hb
    rw [hname]
    exact (h.names b hb name hname).2
  · obtain rfl := List.mem_singleton.1 hb
    rw [key_shared]
    intro c hc
    cases hc

/-- **No two buckets have one directory**: the shared one has that of all outputs, and every
package has one below it. -/
theorem HasDirectories.pairwise (h : (ofPackages fallback packages files).HasDirectories) :
    (ofPackages fallback packages files).buckets.Pairwise fun b b' =>
      b.key.directory ≠ b'.key.directory := by
  refine List.pairwise_append.2 ⟨?_, List.pairwise_singleton _ _, ?_⟩
  · refine h.distinct.imp_of_mem fun {b b'} hb hb' hne => ?_
    obtain ⟨name, hname⟩ := exists_name_of_mem_packages hb
    obtain ⟨name', hname'⟩ := exists_name_of_mem_packages hb'
    rw [hname, hname']
    exact hne name name' hname hname'
  · intro b hb b' hb'
    obtain rfl := List.mem_singleton.1 hb'
    obtain ⟨name, hname⟩ := exists_name_of_mem_packages hb
    rw [hname, key_shared]
    exact (h.names b hb name hname).1

end Directories

end Partition

namespace Orchestrator

open Passthrough (Cache Current)

variable {o : Orchestrator Cache} {files : SourceFiles} {root : Path} {disk : Disk}
  {sources : List SourceFile} {fallback : Option DefaultDelivery}
  {packages : List (String × Package)} {b : Bucket}

/-! ### Tokens -/

/-- The inputs of a request are normal forms. -/
theorem normal_of_mem_issued {x : Bucket × Request Cache}
    (hx : x ∈ o.issued (.ofPackages fallback packages sources)) :
    ∀ input ∈ x.2.inputs, ∃ q : Path, input = q.normalize := by
  obtain ⟨hbucket, hinputs⟩ := mem_buckets_of_mem_issued hx
  rw [hinputs]
  exact fun input hinput => Partition.exists_normalize_of_mem_inputs hbucket hinput

/-- **Current tokens do not show in the answers.** -/
theorem transparent_of_current (h : o.HoldsOnly (Current files root)) :
    Transparent (Passthrough.bundle files root) o (.ofPackages fallback packages sources) := by
  intro x hx
  have hcache : ∀ token, x.2.cache = some token → Current files root token :=
    fun token htoken => h.of_cache_issued hx htoken
  exact Passthrough.bundle_eq hcache (normal_of_mem_issued hx)

/-! ### Copies -/

/-- The lines are the text with a line end at its end, which is added only where there is none. -/
def IsEnded (text lines : String) : Prop :=
  (∃ front, text = front ++ "\n") ∧ lines = text ∨
    (¬ ∃ front, text = front ++ "\n") ∧ lines = text ++ "\n"

theorem IsEnded.unique {text lines lines' : String} (h : IsEnded text lines)
    (h' : IsEnded text lines') : lines = lines' := by
  rcases h with ⟨hend, rfl⟩ | ⟨hend, rfl⟩ <;> rcases h' with ⟨hend', rfl⟩ | ⟨hend', rfl⟩
  · rfl
  · exact absurd hend hend'
  · exact absurd hend' hend
  · rfl

theorem isEnded_ensureNewline (text : String) : IsEnded text (Passthrough.ensureNewline text) := by
  have hiff : text.toList.getLast? = some '\n' ↔ ∃ front, text = front ++ "\n" :=
    Text.getLast?_eq_some_iff
  rw [Passthrough.ensureNewline]
  split
  · next hlast => exact .inl ⟨hiff.1 hlast, rfl⟩
  · next hlast => exact .inr ⟨mt hiff.2 hlast, rfl⟩

/-- What is written for an input with the given lines: they, and a line that names the source map if
one is asked for, in a wrapping if the input is marked. -/
def copiedText (options : Options) (wrapped : Bool) (name lines : String) : String :=
  let code :=
    if options.sourcemap then lines ++ ("//# sourceMappingURL=" ++ name ++ ".map\n") else lines
  if wrapped then Wrapping.wrap code options.sourcemap options.minify else code

/-- The place of an input's copy. -/
def copyPath (o : Orchestrator Cache) (x : Bucket × Path) : Path :=
  (o.bucketDir x.1.key).join (x.1.outputName x.2)

/-- The file is the copy of a bucket's input: it stands in the bucket's directory under the name
reserved for the input, comes from a listed file whose path has the input as its normal form, and
has the input's text, which is what the bytes of the file are read as: in UTF-8, the text that they
are. -/
structure IsCopy (disk : Disk) (root : Path) (sources : List SourceFile) (options : Options)
    (o : Orchestrator Cache) (x : Bucket × Path) (file : OutputFile) : Prop where
  reserved : x.1.outputNames.find? x.2 = some (x.1.outputName x.2)
  path : file.path = o.copyPath x
  origin : ∃ f ∈ sources, file.origin = some f ∧ f.path.normalize = x.2
  contents : ∃ bytes text lines, disk.read (root.join x.2) = .ok bytes ∧
    text = Text.decodeLossy bytes ∧ (∀ s : String, bytes = s.toUTF8.toList → text = s) ∧
    IsEnded text lines ∧
    file.contents =
      .text (copiedText options (x.1.nomodule.contains x.2) (x.1.outputName x.2) lines)

/-- The contents of a copy are known with the bytes of its input. -/
theorem IsCopy.contents_eq {options : Options} {x : Bucket × Path} {file : OutputFile}
    {bytes : List UInt8} {lines : String} (h : IsCopy disk root sources options o x file)
    (hread : disk.read (root.join x.2) = .ok bytes)
    (hlines : IsEnded (Text.decodeLossy bytes) lines) :
    file.contents =
      .text (copiedText options (x.1.nomodule.contains x.2) (x.1.outputName x.2) lines) := by
  obtain ⟨bytes', text, lines', hread', rfl, -, hlines', hcontents⟩ := h.contents
  obtain rfl : bytes = bytes' := Except.ok.inj (hread.symm.trans hread')
  rw [hlines.unique hlines']
  exact hcontents

/-- So is its origin, where one listed file has the input as its normal form. -/
theorem IsCopy.origin_eq {options : Options} {x : Bucket × Path} {file : OutputFile}
    {source : SourceFile} (h : IsCopy disk root sources options o x file)
    (hsource : ∀ f ∈ sources, f.path.normalize = x.2 → f = source) :
    file.origin = some source := by
  obtain ⟨f, hf, horigin, hnormal⟩ := h.origin
  rw [horigin, hsource f hf hnormal]

theorem outDir_plainRequest (o : Orchestrator Cache) (sourceMaps : Bool) (b : Bucket) :
    (plainRequest o.settings sourceMaps b : Request Cache).outDir = o.bucketDir b.key := by
  show (match b.key with
    | .shared => o.outDir
    | .package name => o.outDir.join name) = o.bucketDir b.key
  cases b.key <;> rfl

/-- **A bucket whose request succeeds leaves one file for each input**, whatever token the request
has: it stands in the bucket's directory, under the name that is reserved for the input. -/
theorem map_path_filesOf {x : Bucket × Request Cache} {emitted : Emitted Cache}
    (hx : x ∈ o.issued (.ofPackages fallback packages sources))
    (h : Passthrough.bundle files root x.2 = .ok emitted) :
    (filesOf x.1 x.2 (.ok emitted)).map (·.path) =
      x.1.inputs.toList.map fun q => o.copyPath (x.1, q) := by
  obtain ⟨hbucket, hbare⟩ := bare_of_mem_issued hx
  have hinputs : x.2.inputs = x.1.inputs.toList := congrArg Request.inputs hbare
  have houtputs : x.2.outputNames = x.1.outputNames := congrArg Request.outputNames hbare
  have hdir : x.2.outDir = o.bucketDir x.1.key :=
    (congrArg Request.outDir hbare).trans (outDir_plainRequest o _ x.1)
  have hnames : ∀ input ∈ x.2.inputs, ∃ name, x.2.outputNames.find? input = some name := by
    rw [hinputs, houtputs]
    exact fun q hq => ⟨_, (Partition.inStep_buckets hbucket).find?_outputName hq⟩
  obtain ⟨hassets, hchunks⟩ := Passthrough.forall₂_chunks_of_bundle h hnames
  rw [hinputs, houtputs] at hchunks
  show (OutputFile.ofEmitted x.1 emitted.chunks emitted.assets x.2.outDir _).map _ = _
  rw [OutputFile.ofEmitted, hassets, List.map_nil, List.append_nil, List.map_map, hdir]
  -- the chunk of an input has the name that is reserved for it
  have hpaths : List.Forall₂ (· = ·) (x.1.inputs.toList.map fun q => o.copyPath (x.1, q))
      (emitted.chunks.map fun c => (o.bucketDir x.1.key).join c.fileName) := by
    rw [List.forall₂_map_left_iff, List.forall₂_map_right_iff]
    refine hchunks.imp fun q c hc => ?_
    rw [copyPath, Bucket.outputName, hc.1, Option.getD_some]
  rw [List.forall₂_eq_eq_eq] at hpaths
  exact hpaths.symm

/-- **Every file of a run stands in the directory of a bucket**, under the name of an input. -/
theorem exists_copyPath_of_mem_files {file : OutputFile}
    (h : file ∈ (o.bundle (Passthrough.bundle files root)
      (.ofPackages fallback packages sources)).2.files) :
    ∃ b ∈ (Partition.ofPackages fallback packages sources).buckets, ∃ q ∈ b.inputs.toList,
      file.path = o.copyPath (b, q) := by
  rw [bundle_eq_settleAll, files_settleAll, List.nil_append] at h
  obtain ⟨x, hx, hfile⟩ := List.mem_flatMap.1 h
  cases hanswer : Passthrough.bundle files root x.2 with
  | error e =>
    rw [hanswer] at hfile
    cases hfile
  | ok emitted =>
    rw [hanswer] at hfile
    have hpath : file.path ∈ (filesOf x.1 x.2 (.ok emitted)).map (·.path) :=
      List.mem_map_of_mem hfile
    rw [map_path_filesOf hx hanswer] at hpath
    obtain ⟨q, hq, heq⟩ := List.mem_map.1 hpath
    exact ⟨x.1, (bare_of_mem_issued hx).1, q, hq, heq.symm⟩

theorem toList_inputs_of_isEmpty (h : b.isEmpty) : b.inputs.toList = [] := by
  rw [SortedSet.toList, SortedMap.keys, List.isEmpty_iff.1 h, List.map_nil]

/-- **Every input of a bucket that does not fail has a file**, at the place of its copy. -/
theorem exists_file_of_mem_inputs {q : Path}
    (hb : b ∈ (Partition.ofPackages fallback packages sources).buckets)
    (hq : q ∈ b.inputs.toList)
    (hok : ∀ f ∈ (o.bundle (Passthrough.bundle files root)
      (.ofPackages fallback packages sources)).2.failures, f.bucket ≠ b.key) :
    ∃ file ∈ (o.bundle (Passthrough.bundle files root)
      (.ofPackages fallback packages sources)).2.files, file.path = o.copyPath (b, q) := by
  have hne : ¬ b.isEmpty := by
    intro hempty
    rw [toList_inputs_of_isEmpty hempty] at hq
    cases hq
  obtain ⟨x, hx, rfl⟩ := exists_mem_issued (o := o) hb hne
  rw [bundle_eq_settleAll] at hok ⊢
  rw [failures_settleAll, List.nil_append] at hok
  rw [files_settleAll, List.nil_append]
  cases hanswer : Passthrough.bundle files root x.2 with
  | error e =>
    refine absurd rfl (hok ⟨x.1.key, e⟩ (List.mem_flatMap.2 ⟨x, hx, ?_⟩))
    rw [hanswer]
    exact List.mem_singleton_self _
  | ok emitted =>
    have hpath : o.copyPath (x.1, q) ∈ (filesOf x.1 x.2 (.ok emitted)).map (·.path) := by
      rw [map_path_filesOf hx hanswer]
      exact List.mem_map_of_mem hq
    obtain ⟨file, hfile, heq⟩ := List.mem_map.1 hpath
    refine ⟨file, List.mem_flatMap.2 ⟨x, hx, ?_⟩, heq⟩
    rw [hanswer]
    exact hfile

theorem contents_ofChunk (options : Options) (directory : Path) (b : Bucket) (q : Path)
    (name text : String) :
    (OutputFile.ofChunk b directory options.minify
      (Passthrough.chunk options.sourcemap q name text)).contents =
        .text (copiedText options (b.nomodule.contains q) name
          (Passthrough.ensureNewline text)) := by
  -- the comment and the source map are both there or both missing
  have hcomment : Passthrough.mapComment name = "//# sourceMappingURL=" ++ name ++ ".map\n" := rfl
  cases hmap : options.sourcemap <;>
    simp only [OutputFile.ofChunk, OutputFile.isWrapped, Passthrough.chunk, copiedText, hmap,
      hcomment, Option.any_some, Option.isSome_some, Option.isSome_none, Bool.false_eq_true,
      if_true, if_false]

/-- The file of a chunk is the copy of its input. -/
theorem isCopy_ofChunk {sourceMaps : Bool} {q : Path} {c : Chunk} (hstep : b.InStep sources)
    (hq : ∃ p : Path, q = p.normalize) (hmem : q ∈ b.inputs.toList)
    (hread : ∃ bytes, disk.read (root.join q) = .ok bytes)
    (hc : Passthrough.IsChunkOf (.ofDisk disk) root
      (plainRequest o.settings sourceMaps b) q c) :
    IsCopy disk root sources (.resolve o.overrides sourceMaps) o (b, q)
      (OutputFile.ofChunk b (o.bucketDir b.key) (Options.resolve o.overrides sourceMaps).minify
        c) := by
  obtain ⟨name, text, hname, htext, rfl⟩ := hc
  obtain ⟨bytes, hbytes⟩ := hread
  have hout := hstep.find?_outputName hmem
  obtain rfl : b.outputName q = name := Option.some.inj (hout.symm.trans hname)
  obtain ⟨stamp, -, hdecoded⟩ := SourceFiles.readable_ofDisk hbytes
  obtain rfl : Text.decodeLossy bytes = text := Except.ok.inj (hdecoded.symm.trans htext)
  have hutf8 : ∀ s : String, bytes = s.toUTF8.toList → Text.decodeLossy bytes = s := by
    rintro s rfl
    exact Text.decodeLossy_toUTF8 s
  refine ⟨hout, rfl, ?_, bytes, Text.decodeLossy bytes, _, hbytes, rfl, hutf8,
    isEnded_ensureNewline (Text.decodeLossy bytes), contents_ofChunk _ _ b q _ _⟩
  -- behind the name stands the first file that is the input
  obtain ⟨f, hf, hfirst⟩ := hstep.first q _ hout
  obtain ⟨p, rfl⟩ := hq
  exact ⟨f, hfirst.mem, hf, Path.normalize_ext hfirst.prop⟩

/-- **Each input of a bucket is copied once**, in order, and nothing else comes of the bucket. -/
theorem forall₂_filesOf (o : Orchestrator Cache) (sourceMaps : Bool) (hstep : b.InStep sources)
    (hnormal : ∀ q ∈ b.inputs.toList, ∃ p : Path, q = p.normalize)
    (hread : ∀ q ∈ b.inputs.toList, ∃ bytes, disk.read (root.join q) = .ok bytes) :
    failuresOf b (Passthrough.bundle (.ofDisk disk) root
      (plainRequest o.settings sourceMaps b)) = [] ∧
    List.Forall₂ (IsCopy disk root sources (.resolve o.overrides sourceMaps) o)
      (b.inputs.toList.map fun q => (b, q))
      (filesOf b (plainRequest o.settings sourceMaps b)
        (Passthrough.bundle (.ofDisk disk) root (plainRequest o.settings sourceMaps b))) := by
  have hreadable : ∀ q ∈ b.inputs.toList, ∃ stamp text,
      (SourceFiles.ofDisk disk).stamp (root.join q) = .ok stamp ∧
        (SourceFiles.ofDisk disk).text (root.join q) = .ok text := by
    intro q hq
    obtain ⟨bytes, hbytes⟩ := hread q hq
    obtain ⟨stamp, hstamp, htext⟩ := SourceFiles.readable_ofDisk hbytes
    exact ⟨stamp, _, hstamp, htext⟩
  have hnames : ∀ q ∈ b.inputs.toList, ∃ name, b.outputNames.find? q = some name :=
    fun q hq => ⟨_, hstep.find?_outputName hq⟩
  obtain ⟨emitted, hemitted, hassets, hchunks⟩ :=
    Passthrough.bundle_of_readable (r := plainRequest o.settings sourceMaps b) rfl hreadable hnames
  rw [hemitted]
  refine ⟨rfl, ?_⟩
  show List.Forall₂ _ _ (OutputFile.ofEmitted b emitted.chunks emitted.assets
    (plainRequest o.settings sourceMaps b : Request Cache).outDir
    (Options.resolve o.overrides sourceMaps).minify)
  rw [OutputFile.ofEmitted, hassets, List.map_nil, List.append_nil, outDir_plainRequest,
    List.forall₂_map_left_iff, List.forall₂_map_right_iff]
  have hmembers : List.Forall₂ (fun q c => q ∈ b.inputs.toList ∧
      Passthrough.IsChunkOf (.ofDisk disk) root (plainRequest o.settings sourceMaps b) q c)
      b.inputs.toList emitted.chunks :=
    (List.forall₂_and_left _ _).2 ⟨fun q hq => hq, hchunks⟩
  exact hmembers.imp fun q c h => isCopy_ofChunk hstep (hnormal q h.1) h.1 (hread q h.1) h.2

/-! ### Paths -/

theorem components_bucketDir (o : Orchestrator Cache) {key : BucketKey}
    (h : ∀ c ∈ key.directory, c.isName) :
    (o.bucketDir key).components = o.outDir.components ++ key.directory := by
  cases key with
  | shared => exact (List.append_nil _).symm
  | package name => exact Path.components_join_names h

/-- The components of a copy's path: the directory and then the name. -/
theorem components_copyPath (o : Orchestrator Cache) {q : Path} (hstep : b.InStep sources)
    (h : ∀ c ∈ b.key.directory, c.isName) (hq : q ∈ b.inputs.toList) :
    (o.copyPath (b, q)).components =
      o.outDir.components ++ b.key.directory ++ [.name (b.outputName q)] := by
  have hname := hstep.components_outputName hq
  have hnames : ∀ c ∈ (⟨b.outputName q⟩ : Path).components, c.isName := by
    rw [hname]
    simp [Component.isName]
  rw [copyPath, Path.components_join_names hnames, components_bucketDir o h, hname]

/-- **A path tells the directory and the name of a copy.** -/
theorem directory_name_of_copyPath_equiv {b' : Bucket} {q q' : Path}
    (h : (Partition.ofPackages fallback packages sources).HasDirectories)
    (hb : b ∈ (Partition.ofPackages fallback packages sources).buckets)
    (hb' : b' ∈ (Partition.ofPackages fallback packages sources).buckets)
    (hq : q ∈ b.inputs.toList) (hq' : q' ∈ b'.inputs.toList)
    (heq : o.copyPath (b, q) ≈ o.copyPath (b', q')) :
    b.key.directory = b'.key.directory ∧ b.outputName q = b'.outputName q' := by
  have hcomp : (o.copyPath (b, q)).components = (o.copyPath (b', q')).components := heq
  rw [components_copyPath o (Partition.inStep_buckets hb) (h.isName hb) hq,
    components_copyPath o (Partition.inStep_buckets hb') (h.isName hb') hq'] at hcomp
  obtain ⟨hfront, hback⟩ := List.append_inj' hcomp rfl
  exact ⟨List.append_cancel_left hfront, by simpa using hback⟩

/-- **No two inputs are copied to one path.** -/
theorem pairwise_inputs (o : Orchestrator Cache)
    (h : (Partition.ofPackages fallback packages sources).HasDirectories) :
    (Partition.ofPackages fallback packages sources).inputs.Pairwise fun x y =>
      ¬ o.copyPath x ≈ o.copyPath y := by
  refine List.pairwise_flatMap.2 ⟨fun b hb => ?_, ?_⟩
  · -- in one bucket the names differ
    refine List.pairwise_map.2 ((SortedSet.pairwise_toList b.inputs).imp_of_mem
      fun hq hq' hlt heq => ?_)
    have hstep := Partition.inStep_buckets hb
    have hname := hstep.find?_outputName hq'
    rw [← (directory_name_of_copyPath_equiv h hb hb hq hq' heq).2] at hname
    have hequiv := hstep.injective _ _ _ (hstep.find?_outputName hq) hname
    rw [Path.compare_eq_iff.2 hequiv] at hlt
    cases hlt
  · -- in two buckets the directories do
    refine h.pairwise.imp_of_mem fun {b b'} hb hb' hne x hx y hy heq => hne ?_
    obtain ⟨q, hq, rfl⟩ := List.mem_map.1 hx
    obtain ⟨q', hq', rfl⟩ := List.mem_map.1 hy
    exact (directory_name_of_copyPath_equiv h hb hb' hq hq' heq).1

/-! ### A run -/

/-- Empty buckets have no inputs. -/
theorem flatMap_filter_isEmpty {α : Type} (bs : List Bucket) (f : Bucket → Path → α) :
    ((bs.filter fun b => !b.isEmpty).flatMap fun b => b.inputs.toList.map (f b)) =
      bs.flatMap fun b => b.inputs.toList.map (f b) := by
  apply flatMap_filter_of_nil
  intro b _ hb
  rw [toList_inputs_of_isEmpty (by simpa using hb), List.map_nil]

theorem forall₂_flatMap {α β γ : Type} {R : β → γ → Prop} {l : List α} {f : α → List β}
    {g : α → List γ} (h : ∀ a ∈ l, List.Forall₂ R (f a) (g a)) :
    List.Forall₂ R (l.flatMap f) (l.flatMap g) := by
  induction l with
  | nil => exact .nil
  | cons a rest ih =>
    rw [List.flatMap_cons, List.flatMap_cons]
    exact List.rel_append (h a List.mem_cons_self)
      (ih fun a' ha' => h a' (List.mem_cons_of_mem a ha'))

/-- **A run with current tokens copies every input, and nothing fails.** -/
theorem forall₂_files_bundle
    (hread : ∀ x ∈ (Partition.ofPackages fallback packages sources).inputs,
      ∃ bytes, disk.read (root.join x.2) = .ok bytes)
    (htokens : o.HoldsOnly (Current (.ofDisk disk) root)) :
    let part := Partition.ofPackages fallback packages sources
    let bundled := (o.bundle (Passthrough.bundle (.ofDisk disk) root) part).2
    bundled.failures = [] ∧
      List.Forall₂ (IsCopy disk root sources (.resolve o.overrides part.sourceMaps) o) part.inputs
        bundled.files := by
  intro part bundled
  have htransparent : Transparent (Passthrough.bundle (.ofDisk disk) root) o part :=
    transparent_of_current htokens
  have hbucket := fun b (hb : b ∈ part.buckets) =>
    forall₂_filesOf o part.sourceMaps (Partition.inStep_buckets hb)
      (fun q hq => Partition.exists_normalize_of_mem_inputs hb hq)
      (fun q hq => hread (b, q) (List.mem_flatMap.2 ⟨b, hb, List.mem_map_of_mem hq⟩))
  constructor
  · rw [failures_bundle htransparent, List.flatMap_eq_nil_iff]
    exact fun b hb => (hbucket b (List.mem_of_mem_filter hb)).1
  · rw [files_bundle htransparent, Partition.inputs, ← flatMap_filter_isEmpty]
    exact forall₂_flatMap fun b hb => (hbucket b (List.mem_of_mem_filter hb)).2

/-- The paths of copies are those of their inputs, in order. -/
theorem map_path_of_isCopy {options : Options} {xs : List (Bucket × Path)}
    {handed : List OutputFile}
    (h : List.Forall₂ (IsCopy disk root sources options o) xs handed) :
    handed.map (·.path) = xs.map o.copyPath := by
  induction h with
  | nil => rfl
  | cons hcopy _ ih => rw [List.map_cons, List.map_cons, hcopy.path, ih]

/-- Copies of inputs that have pairwise different paths have pairwise different paths. -/
theorem pairwise_of_isCopy {options : Options} {xs : List (Bucket × Path)}
    {handed : List OutputFile}
    (h : List.Forall₂ (IsCopy disk root sources options o) xs handed)
    (hxs : xs.Pairwise fun x y => ¬ o.copyPath x ≈ o.copyPath y) :
    handed.Pairwise fun f g => ¬ f.path ≈ g.path := by
  have hpaths : (handed.map (·.path)).Pairwise fun p q => ¬ p ≈ q := by
    rw [map_path_of_isCopy h]
    exact List.pairwise_map.2 hxs
  exact List.pairwise_map.1 hpaths

/-- **A run copies every input of every bucket, each to a path of its own, and nothing else.**  The
sink may do anything with a file as long as it takes it.  An orchestrator that is new holds no
token, so its tokens are current. -/
theorem run_ofRegistry {m : Type → Type} [Monad m] [LawfulMonad m] (r : Registry)
    (sources : List SourceFile) (policy : Policy) (fallback : Option DefaultDelivery) (disk : Disk)
    (root : Path) (o : Orchestrator Cache) (effect : OutputFile → m Unit) :
    let part := Partition.ofRegistry r sources policy fallback
    part.HasDirectories →
    (∀ x ∈ part.inputs, ∃ bytes, disk.read (root.join x.2) = .ok bytes) →
    o.HoldsOnly (Current (.ofDisk disk) root) →
    ∃ handed report,
      ((·.2) <$> o.run (Passthrough.bundle (.ofDisk disk) root) (accepting effect) part = do
        handed.forM effect
        return report) ∧
      List.Forall₂ (IsCopy disk root sources (.resolve o.overrides part.sourceMaps) o) part.inputs
        handed ∧
      handed.Pairwise (fun f g => ¬ f.path ≈ g.path) ∧
      report.isClean ∧ report.written = part.inputs.length := by
  intro part hdirectories hread htokens
  obtain ⟨hfailures, hcopies⟩ := forall₂_files_bundle hread htokens
  have hpaths := pairwise_of_isCopy hcopies (pairwise_inputs o hdirectories)
  refine ⟨_, _, run_accepting effect hfailures hpaths, hcopies, hpaths,
    isClean_cleanReport _ _ _, ?_⟩
  rw [written_cleanReport]
  exact hcopies.length_eq.symm

/-- Two packages, one in a directory below the other's. -/
def nested : Registry where
  packages := .ofList [
    (⟨"kit/package.json"⟩,
      ⟨⟨some "ui/kit", false, .classic,
        { exact := .ofList [(".", .ofList [(.importModule, .path ⟨"lib/index.js"⟩)])] },
        ⟨"kit"⟩⟩, none⟩),
    (⟨"ui/package.json"⟩,
      ⟨⟨some "ui", false, .classic,
        { exact := .ofList [(".", .ofList [(.script, .path ⟨"lib/index.js"⟩)])] },
        ⟨"ui"⟩⟩, none⟩)]

/-- A file of both packages, and one of none with the same stem. -/
def nestedFiles : List SourceFile :=
  [⟨⟨"./lib/index.js"⟩, false⟩, ⟨⟨"index.js"⟩, true⟩]

/-- The first file has no line end, and the second one a byte that is no UTF-8. -/
def nestedDisk : Disk where
  top := .directory [
    ("lib", .directory [("index.js", .file [0x78] 0)]),
    ("index.js", .file [0x79, 0xFF, 0x0A] 0)]

theorem read_nestedDisk :
    nestedDisk.read ⟨"lib/index.js"⟩ = .ok [0x78] ∧
      nestedDisk.read ⟨"index.js"⟩ = .ok [0x79, 0xFF, 0x0A] := by
  have hlib : ¬ Disk.nameLimit < "lib".utf8ByteSize := by decide
  have hindex : ¬ Disk.nameLimit < "index.js".utf8ByteSize := by decide
  have hsteps : Disk.steps "lib/index.js" = ["lib", "index.js"] ∧
      Disk.steps "index.js" = ["index.js"] := by
    decide +kernel
  have hwalk : Disk.walk nestedDisk.top true Disk.linkLimit [] ["lib", "index.js"] =
      .ok (.node ["lib", "index.js"] (.file [0x78] 0)) := by
    simp [Disk.walk, nestedDisk, Node.at?, Node.child?, Node.entryIn?, hlib, hindex]
  have hwalk' : Disk.walk nestedDisk.top true Disk.linkLimit [] ["index.js"] =
      .ok (.node ["index.js"] (.file [0x79, 0xFF, 0x0A] 0)) := by
    simp [Disk.walk, nestedDisk, Node.at?, Node.child?, Node.entryIn?, hindex]
  exact ⟨Disk.read_eq_ok_iff.2 ⟨rfl, _, _, hsteps.1 ▸ hwalk⟩,
    Disk.read_eq_ok_iff.2 ⟨rfl, _, _, hsteps.2 ▸ hwalk'⟩⟩

/-- Each file as a sequence of lines: the missing line end is added, the broken byte replaced. -/
theorem isEnded_nestedDisk : IsEnded (Text.decodeLossy [0x78]) "x\n" ∧
    IsEnded (Text.decodeLossy [0x79, 0xFF, 0x0A]) "y\uFFFD\n" := by
  have hx : Text.decodeLossy [0x78] = "x" := by decide +kernel
  have hy : Text.decodeLossy [0x79, 0xFF, 0x0A] = "y\uFFFD" ++ "\n" := by decide +kernel
  refine ⟨.inr ⟨?_, by rw [hx]; rfl⟩, .inl ⟨⟨_, hy⟩, hy.symm⟩⟩
  rintro ⟨front, hfront⟩
  have hlast : (Text.decodeLossy [0x78]).toList.getLast? = some '\n' :=
    Text.getLast?_eq_some_iff.2 ⟨front, hfront⟩
  rw [hx] at hlast
  exact absurd hlast (by decide +kernel)

/-- One name three times, in three directories: with the text of the file, which is wrapped in the
directory of the package that delivers it as a script, and with the comment in each case, since one
file asks for a source map. -/
theorem run_nested :
    let part := Partition.ofRegistry nested nestedFiles {} none
    let o : Orchestrator Cache := { outDir := ⟨"out"⟩, overrides := {} }
    let log : OutputFile → StateM (List OutputFile) Unit := fun file => modify (· ++ [file])
    part.HasDirectories ∧
      (∀ x ∈ part.inputs, ∃ bytes, nestedDisk.read ((⟨""⟩ : Path).join x.2) = .ok bytes) ∧
      o.HoldsOnly (Current (.ofDisk nestedDisk) ⟨""⟩) ∧
      ∃ (handed : List OutputFile) (report : BundleReport),
        ((·.2) <$> o.run (Passthrough.bundle (.ofDisk nestedDisk) ⟨""⟩) (accepting log) part = do
          handed.forM log
          return report) ∧
        handed.map (fun file => (file.path.text, file.contents, file.origin)) = [
          ("out/ui/kit/index.js", .text "x\n//# sourceMappingURL=index.js.map\n",
            some ⟨⟨"./lib/index.js"⟩, false⟩),
          ("out/ui/index.js",
            .text ("\"use strict\";(function()\x7bx\x7d)()\n" ++
              "//# sourceMappingURL=index.js.map\n"),
            some ⟨⟨"./lib/index.js"⟩, false⟩),
          ("out/index.js", .text "y\uFFFD\n//# sourceMappingURL=index.js.map\n",
            some ⟨⟨"index.js"⟩, true⟩)] ∧
        handed.Pairwise (fun f g => ¬ f.path ≈ g.path) ∧
        report.isClean ∧ report.written = 3 := by
  intro part o log
  have hkeys : part.packages.map (·.key) = [.package "ui/kit", .package "ui"] := by
    decide +kernel
  have hmaps : part.sourceMaps = true := by decide +kernel
  have hinputs : part.inputs.map (fun x =>
      (x.2, x.1.nomodule.contains x.2, x.1.outputName x.2, (o.copyPath x).text)) =
      [(⟨"lib/index.js"⟩, false, "index.js", "out/ui/kit/index.js"),
        (⟨"lib/index.js"⟩, true, "index.js", "out/ui/index.js"),
        (⟨"index.js"⟩, false, "index.js", "out/index.js")] := by
    decide +kernel
  have hdirectories : part.HasDirectories := by
    constructor
    · intro b hb name hname
      have hmem : b.key ∈ part.packages.map (·.key) := List.mem_map_of_mem hb
      rw [hkeys, hname] at hmem
      obtain rfl | rfl : name = "ui/kit" ∨ name = "ui" := by simpa using hmem
      · decide +kernel
      · decide +kernel
    · have hpair : (part.packages.map (·.key)).Pairwise fun k k' => ∀ name name',
          k = .package name → k' = .package name' → ¬ (⟨name⟩ : Path) ≈ ⟨name'⟩ := by
        rw [hkeys]
        have hne : ¬ (⟨"ui/kit"⟩ : Path) ≈ ⟨"ui"⟩ := by decide +kernel
        simpa using hne
      exact List.pairwise_map.1 hpair
  obtain ⟨x, y, z, hxyz⟩ : ∃ x y z, part.inputs = [x, y, z] := List.length_eq_three.1 <| by
    simpa using congrArg List.length hinputs
  rw [hxyz] at hinputs
  simp only [List.map_cons, List.map_nil, List.cons.injEq, Prod.mk.injEq, and_true] at hinputs
  obtain ⟨⟨hx, hwrapx, hnamex, hpathx⟩, ⟨hy, hwrapy, hnamey, hpathy⟩, hz, hwrapz, hnamez, hpathz⟩ :=
    hinputs
  have hread : ∀ x ∈ part.inputs,
      ∃ bytes, nestedDisk.read ((⟨""⟩ : Path).join x.2) = .ok bytes := by
    rw [hxyz]
    simp only [List.forall_mem_cons, hx, hy, hz]
    exact ⟨⟨_, read_nestedDisk.1⟩, ⟨_, read_nestedDisk.1⟩, ⟨_, read_nestedDisk.2⟩, by simp⟩
  have htokens : o.HoldsOnly (Current (.ofDisk nestedDisk) ⟨""⟩) :=
    holdsOnly_of_caches_eq_empty rfl
  obtain ⟨handed, report, hrun, hcopies, hpairwise, hclean, hwritten⟩ :=
    run_ofRegistry nested nestedFiles {} none nestedDisk ⟨""⟩ o log hdirectories hread htokens
  refine ⟨hdirectories, hread, htokens, handed, report, hrun, ?_, hpairwise, hclean, ?_⟩
  · rw [hxyz, hmaps] at hcopies
    obtain ⟨f, _, hf, hothers, rfl⟩ := List.forall₂_cons_left_iff.1 hcopies
    obtain ⟨g, _, hg, hlast, rfl⟩ := List.forall₂_cons_left_iff.1 hothers
    obtain ⟨h, _, hh, hnone, rfl⟩ := List.forall₂_cons_left_iff.1 hlast
    obtain rfl := List.forall₂_nil_left_iff.1 hnone
    -- each input is the normal form of one listed file
    have hlib : ∀ s ∈ nestedFiles, s.path.normalize = ⟨"lib/index.js"⟩ →
        s = ⟨⟨"./lib/index.js"⟩, false⟩ := by
      decide +kernel
    have hindex : ∀ s ∈ nestedFiles, s.path.normalize = ⟨"index.js"⟩ →
        s = ⟨⟨"index.js"⟩, true⟩ := by
      decide +kernel
    have hforigin := hf.origin_eq (by rwa [hx])
    have hgorigin := hg.origin_eq (by rwa [hy])
    have hhorigin := hh.origin_eq (by rwa [hz])
    have hf' := hf.contents_eq (hx ▸ read_nestedDisk.1) isEnded_nestedDisk.1
    have hg' := hg.contents_eq (hy ▸ read_nestedDisk.1) isEnded_nestedDisk.1
    have hh' := hh.contents_eq (hz ▸ read_nestedDisk.2) isEnded_nestedDisk.2
    rw [hwrapx, hnamex] at hf'
    rw [hwrapy, hnamey] at hg'
    rw [hwrapz, hnamez] at hh'
    simp only [List.map_cons, List.map_nil, hf.path, hg.path, hh.path, hpathx, hpathy, hpathz, hf',
      hg', hh', hforigin, hgorigin, hhorigin]
    decide +kernel
  · rw [hwritten, hxyz]
    rfl

end Orchestrator

end PackageRouting
