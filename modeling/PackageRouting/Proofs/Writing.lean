/-
PackageRouting/Proofs/Writing.lean

What becomes of each file of a run, and how the report counts it.

A file is handed to the sink, which takes or refuses it, or its path has come up
before and it is handed to no one (`Fate`).  Which of these it is depends on the
paths alone (`eq_repeated_iff`), the rest is up to the sink.  What the sink was
handed is seen by a sink that keeps a record and is otherwise the same
(`writeAll_recorded`): it is one of the files, and no path is left out
(`mem_files_of_mem_log`, `exists_mem_log`).

The requests of a run may be answered by different bundlers, so that equal
requests need not have equal answers (`runEach`).

Main result: `run_balanced` (no path is handed over twice, and every file and
every bucket is counted once).
-/
import PackageRouting.Proofs.Orchestrator

namespace PackageRouting

namespace Orchestrator

variable {τ σ : Type} {o : Orchestrator τ} {bundler : Bundler τ} {bundlers : Nat → Bundler τ}
  {p : Partition} {seen : SortedSet Path} {files : List OutputFile} {file : OutputFile}
  {fresh : Bool} {i : Nat}

/-! ### Answers of many bundlers -/

/-- The requests of a run, each with the answer of the bundler in its place. -/
def exchanges (bundlers : Nat → Bundler τ) (o : Orchestrator τ) (p : Partition) :
    List (Exchange τ) :=
  (o.issued p).zipIdx.map fun x => ⟨x.1.1, x.1.2, bundlers x.2 x.1.2⟩

/-- Bundles the buckets of a partition, each with the bundler in its place. -/
def bundleEach (bundlers : Nat → Bundler τ) (o : Orchestrator τ) (p : Partition) :
    Nat × Settled τ :=
  let (issued, held) := (o.prune p).requestAll (.resolve o.overrides p.sourceMaps) p.buckets
  (issued.length, settleEach { orchestrator := held } (exchanges bundlers o p))

/-- Bundles a partition with many bundlers and writes what comes of it. -/
def runEach {m : Type → Type} [Monad m] (bundlers : Nat → Bundler τ)
    (sink : OutputFile → m (Except SinkError Unit)) (o : Orchestrator τ) (p : Partition) :
    m (Orchestrator τ × BundleReport) := do
  let (bundled, settled) := o.bundleEach bundlers p
  let results ← writeAll sink (markFresh .empty settled.files)
  return (settled.orchestrator, report p bundled settled.failures results)

theorem exchanges_const (bundler : Bundler τ) (o : Orchestrator τ) (p : Partition) :
    exchanges (fun _ => bundler) o p = (o.issued p).map fun x => ⟨x.1, x.2, bundler x.2⟩ := by
  conv_rhs => rw [← List.zipIdx_map_fst 0 (o.issued p), List.map_map]
  rfl

theorem bundleEach_const (bundler : Bundler τ) (o : Orchestrator τ) (p : Partition) :
    o.bundleEach (fun _ => bundler) p = o.bundle bundler p := by
  rw [bundle_eq_settleAll, settleAll_eq_settleEach, ← exchanges_const]
  rfl

/-- **A run with one bundler is a run in which all requests have the same one.** -/
theorem run_eq_runEach {m : Type → Type} [Monad m] (bundler : Bundler τ)
    (sink : OutputFile → m (Except SinkError Unit)) (o : Orchestrator τ) (p : Partition) :
    o.run bundler sink p = o.runEach (fun _ => bundler) sink p := by
  rw [run, runEach, bundleEach_const]

theorem map_bucket_exchanges (bundlers : Nat → Bundler τ) (o : Orchestrator τ) (p : Partition) :
    (exchanges bundlers o p).map (·.bucket) = p.buckets.filter fun b => !b.isEmpty := by
  have hissued := congrArg (List.map (·.1)) (bare_issued o p)
  rw [List.map_map, List.map_map] at hissued
  calc (exchanges bundlers o p).map (·.bucket)
      = ((o.issued p).zipIdx.map (·.1)).map (·.1) := by
        rw [exchanges, List.map_map, List.map_map]
        rfl
    _ = (o.issued p).map (·.1) := by rw [List.zipIdx_map_fst]
    _ = (p.buckets.filter fun b => !b.isEmpty).map id := hissued
    _ = _ := List.map_id _

/-! ### Fresh paths -/

/-- **A file is not fresh iff its path was there before**, or comes up in front of it. -/
theorem fresh_iff (h : (markFresh seen files)[i]? = some (file, fresh)) :
    fresh = false ↔ seen.contains file.path ∨ ∃ g ∈ files.take i, file.path ≈ g.path := by
  induction files generalizing seen i with
  | nil => cases h
  | cons f rest ih =>
    rw [markFresh] at h
    cases i with
    | zero =>
      cases h
      simp
    | succ i =>
      -- behind the first file its path counts as seen
      rw [ih h, SortedSet.contains_insert, Path.compare_eq_iff]
      simp only [List.take_succ_cons, List.mem_cons, exists_eq_or_imp]
      tauto

theorem map_fst_markFresh (seen : SortedSet Path) (files : List OutputFile) :
    (markFresh seen files).map (·.1) = files := by
  induction files generalizing seen with
  | nil => rfl
  | cons f rest ih => rw [markFresh, List.map_cons, ih]

/-- **Fresh files have pairwise different paths.** -/
theorem pairwise_fresh (seen : SortedSet Path) (files : List OutputFile) :
    ((markFresh seen files).filter (·.2)).Pairwise fun x y => ¬ x.1.path ≈ y.1.path := by
  induction files generalizing seen with
  | nil => exact .nil
  | cons f rest ih =>
    rw [markFresh, List.filter_cons]
    split
    · refine List.pairwise_cons.2 ⟨?_, ih _⟩
      rintro ⟨g, fresh⟩ hg heq
      obtain ⟨hmem, hfresh⟩ := List.mem_filter.1 hg
      obtain ⟨i, hi⟩ := List.mem_iff_getElem?.1 hmem
      -- the path in front was seen before the later file
      have hseen : (seen.insert f.path).contains g.path :=
        (SortedSet.contains_insert seen f.path g.path).2
          (.inl (Path.compare_eq_iff.2 (Path.equiv_symm heq)))
      rw [(fresh_iff hi).2 (.inl hseen)] at hfresh
      cases hfresh
    · exact ih _

/-- Every path was there before, or comes up fresh. -/
theorem contains_or_exists_fresh (seen : SortedSet Path) (hfile : file ∈ files) :
    seen.contains file.path ∨ ∃ g, (g, true) ∈ markFresh seen files ∧ g.path ≈ file.path := by
  induction files generalizing seen with
  | nil => cases hfile
  | cons f rest ih =>
    rw [markFresh]
    -- the first file is fresh, or its path was there before
    have hfirst : file.path ≈ f.path → seen.contains file.path ∨
        ∃ g, (g, true) ∈ (f, !seen.contains f.path) :: markFresh (seen.insert f.path) rest ∧
          g.path ≈ file.path := by
      intro heq
      rw [SortedMap.contains_congr seen (Path.compare_eq_iff.2 heq)]
      cases hseen : seen.contains f.path with
      | true => exact .inl rfl
      | false => exact .inr ⟨f, List.mem_cons_self, Path.equiv_symm heq⟩
    rcases List.mem_cons.1 hfile with rfl | hfile
    · exact hfirst (Path.equiv_refl _)
    · rcases ih (seen.insert f.path) hfile with hseen | ⟨g, hg, heq⟩
      · rw [SortedSet.contains_insert, Path.compare_eq_iff] at hseen
        exact hseen.elim hfirst .inl
      · exact .inr ⟨g, List.mem_cons_of_mem _ hg, heq⟩

/-! ### Fates -/

/-- What becomes of a file of a run. -/
inductive Fate where
  /-- The sink took it. -/
  | written
  /-- The sink refused it. -/
  | refused (error : SinkError)
  /-- Its path came up before, and the sink did not see it. -/
  | repeated
  deriving DecidableEq

namespace Fate

/-- The fate of a file that is handed to the sink, by the sink's answer. -/
def ofAnswer : Except SinkError Unit → Fate
  | .ok () => written
  | .error e => refused e

/-- What the sink answered. -/
def answer? : Fate → Option (Except SinkError Unit)
  | written => some (.ok ())
  | refused e => some (.error e)
  | repeated => none

/-- How a file that was not written is reported. -/
def failure? (file : OutputFile) : Fate → Option WriteFailure
  | written => none
  | refused e => some ⟨file.path, e⟩
  | repeated => some ⟨file.path, Orchestrator.repeated file⟩

/-- What a run notes of a file. -/
def result (file : OutputFile) : Fate → Except SinkError Unit
  | written => .ok ()
  | refused e => .error e
  | repeated => .error (Orchestrator.repeated file)

theorem answer?_ofAnswer (answer : Except SinkError Unit) :
    (ofAnswer answer).answer? = some answer := by
  cases answer <;> rfl

theorem result_ofAnswer (file : OutputFile) (answer : Except SinkError Unit) :
    (ofAnswer answer).result file = answer := by
  cases answer <;> rfl

end Fate

/-- The files of a run, each with its fate. -/
abbrev Fates := List (OutputFile × Fate)

namespace Fates

/-- The files as they were marked: those that the sink was handed were fresh. -/
def marked (fates : Fates) : List (OutputFile × Bool) :=
  fates.map fun x => (x.1, x.2.answer?.isSome)

/-- What the sink was handed, and answered. -/
def handed (fates : Fates) : List (OutputFile × Except SinkError Unit) :=
  fates.filterMap fun x => x.2.answer?.map (x.1, ·)

/-- What a run notes. -/
def results (fates : Fates) : List (OutputFile × Except SinkError Unit) :=
  fates.map fun x => (x.1, x.2.result x.1)

theorem marked_cons (file : OutputFile) (fate : Fate) (fates : Fates) :
    marked ((file, fate) :: fates) = (file, fate.answer?.isSome) :: fates.marked := rfl

theorem handed_cons (file : OutputFile) (fate : Fate) (fates : Fates) :
    handed ((file, fate) :: fates) = (fate.answer?.map (file, ·)).toList ++ fates.handed := by
  rw [handed, List.filterMap_cons, ← handed]
  cases fate.answer? <;> rfl

theorem results_cons (file : OutputFile) (fate : Fate) (fates : Fates) :
    results ((file, fate) :: fates) = (file, fate.result file) :: fates.results := rfl

theorem map_fst_marked (fates : Fates) : fates.marked.map (·.1) = fates.map (·.1) := by
  rw [marked, List.map_map]
  rfl

theorem map_fst_handed (fates : Fates) :
    fates.handed.map (·.1) = (fates.marked.filter (·.2)).map (·.1) := by
  induction fates with
  | nil => rfl
  | cons x rest ih =>
    rw [handed, marked, List.filterMap_cons, List.map_cons, List.filter_cons]
    obtain ⟨file, fate⟩ := x
    cases fate with
    | written => exact congrArg (file :: ·) ih
    | refused e => exact congrArg (file :: ·) ih
    | repeated => exact ih

section Marked

variable {fates : Fates} (h : fates.marked = markFresh .empty files)

include h

theorem map_fst_eq : fates.map (·.1) = files := by
  rw [← map_fst_marked, h, map_fst_markFresh]

/-- **A file is withheld from the sink iff an earlier one has its path.** -/
theorem eq_repeated_iff {fate : Fate} (hi : fates[i]? = some (file, fate)) :
    fate = .repeated ↔ ∃ earlier ∈ fates.take i, file.path ≈ earlier.1.path := by
  have hmarked : (markFresh .empty files)[i]? = some (file, fate.answer?.isSome) := by
    rw [← h, marked, List.getElem?_map, hi]
    rfl
  have hfate : fate = .repeated ↔ fate.answer?.isSome = false := by
    cases fate <;> simp [Fate.answer?]
  -- nothing was seen before the run
  rw [hfate, fresh_iff hmarked, ← map_fst_eq h]
  simp [← List.map_take, SortedMap.contains, SortedMap.find?_empty]

/-- **No two files that the sink was handed have the same path.** -/
theorem pairwise_handed : fates.handed.Pairwise fun x y => ¬ x.1.path ≈ y.1.path := by
  have hfresh : ((fates.handed.map (·.1))).Pairwise fun f g => ¬ f.path ≈ g.path := by
    rw [map_fst_handed, h]
    exact List.pairwise_map.2 (pairwise_fresh .empty files)
  exact List.pairwise_map.1 hfresh

end Marked

theorem written_report (fates : Fates) (p : Partition) (bundled : Nat)
    (failures : List BucketFailure) :
    (report p bundled failures fates.results).written = fates.countP (·.2 = .written) := by
  show fates.results.countP (fun r => r.2.isOk) = _
  rw [results, List.countP_map]
  congr 1
  funext ⟨file, fate⟩
  cases fate <;> rfl

theorem writeFailures_report (fates : Fates) (p : Partition) (bundled : Nat)
    (failures : List BucketFailure) :
    (report p bundled failures fates.results).writeFailures =
      fates.filterMap fun x => x.2.failure? x.1 := by
  show fates.results.filterMap _ = _
  rw [results, List.filterMap_map]
  congr 1
  funext ⟨file, fate⟩
  cases fate <;> rfl

/-- **A file is written or reported, and not both.** -/
theorem countP_add_length (fates : Fates) :
    fates.countP (·.2 = .written) + (fates.filterMap fun x => x.2.failure? x.1).length =
      fates.length := by
  have hfailed : ∀ x : OutputFile × Fate,
      (x.2.failure? x.1).isSome = !decide (x.2 = .written) := by
    rintro ⟨file, fate⟩
    cases fate <;> rfl
  rw [List.length_filterMap_eq_countP, List.length_eq_countP_add_countP (·.2 = .written)]
  simp [hfailed]

end Fates

/-- The sink that does what another does, and keeps a record of it. -/
def recorded (sink : OutputFile → StateM σ (Except SinkError Unit)) (file : OutputFile) :
    StateM (List (OutputFile × Except SinkError Unit) × σ) (Except SinkError Unit) :=
  fun (log, world) =>
    let (answer, world) := sink file world
    (answer, log ++ [(file, answer)], world)

section WriteAll

variable (sink : OutputFile → StateM σ (Except SinkError Unit)) (file : OutputFile)
  (rest : List (OutputFile × Bool)) (world : σ)

/-- A fresh file goes to the sink. -/
theorem writeAll_fresh : (writeAll sink ((file, true) :: rest)).run world =
    ((file, ((sink file).run world).1) ::
        ((writeAll sink rest).run ((sink file).run world).2).1,
      ((writeAll sink rest).run ((sink file).run world).2).2) := rfl

/-- Another one does not. -/
theorem writeAll_repeated : (writeAll sink ((file, false) :: rest)).run world =
    ((file, .error (repeated file)) :: ((writeAll sink rest).run world).1,
      ((writeAll sink rest).run world).2) := rfl

end WriteAll

theorem run_recorded (sink : OutputFile → StateM σ (Except SinkError Unit)) (file : OutputFile)
    (log : List (OutputFile × Except SinkError Unit)) (world : σ) :
    (recorded sink file).run (log, world) =
      (((sink file).run world).1, log ++ [(file, ((sink file).run world).1)],
        ((sink file).run world).2) := rfl

/-- **The record shows what the sink was handed, and does not show elsewhere.** -/
theorem writeAll_recorded (sink : OutputFile → StateM σ (Except SinkError Unit))
    (marked : List (OutputFile × Bool)) (log : List (OutputFile × Except SinkError Unit))
    (world : σ) :
    ∃ (fates : Fates) (world' : σ), fates.marked = marked ∧
      (writeAll sink marked).run world = (fates.results, world') ∧
      (writeAll (recorded sink) marked).run (log, world) =
        (fates.results, log ++ fates.handed, world') := by
  induction marked generalizing log world with
  | nil =>
    refine ⟨[], world, rfl, rfl, ?_⟩
    rw [Fates.handed, List.filterMap_nil, List.append_nil]
    rfl
  | cons x rest ih =>
    obtain ⟨file, fresh⟩ := x
    cases fresh with
    | true =>
      -- the rest begins in the world that the sink leaves, with one more entry in the record
      obtain ⟨fates, world', hmarked, hplain, hrecorded⟩ :=
        ih (log ++ [(file, ((sink file).run world).1)]) ((sink file).run world).2
      refine ⟨(file, .ofAnswer ((sink file).run world).1) :: fates, world', ?_, ?_, ?_⟩
      · rw [Fates.marked_cons, Fate.answer?_ofAnswer, hmarked]
        rfl
      · rw [writeAll_fresh, hplain, Fates.results_cons, Fate.result_ofAnswer]
      · rw [writeAll_fresh, run_recorded, hrecorded, Fates.results_cons, Fate.result_ofAnswer,
          Fates.handed_cons, Fate.answer?_ofAnswer, List.append_assoc]
        rfl
    | false =>
      obtain ⟨fates, world', hmarked, hplain, hrecorded⟩ := ih log world
      refine ⟨(file, .repeated) :: fates, world', ?_, ?_, ?_⟩
      · rw [Fates.marked_cons, hmarked]
        rfl
      · rw [writeAll_repeated, hplain]
        rfl
      · rw [writeAll_repeated, hrecorded]
        rfl

/-! ### Runs -/

/-- The accounts of a run: its requests with their answers, what the sink was handed, the fates of
the files, and the report. -/
structure Balanced (xs : List (Exchange τ)) (p : Partition)
    (log : List (OutputFile × Except SinkError Unit)) (fates : Fates) (report : BundleReport) :
    Prop where
  /-- There is a request for every bucket with inputs, in order. -/
  asked : xs.map (·.bucket) = p.buckets.filter fun b => !b.isEmpty
  bundled : report.bundled = xs.length
  /-- The other buckets are skipped. -/
  skipped : report.bundled + report.skipped = p.buckets.length
  /-- The failing buckets are listed, in order. -/
  failures : report.failures = xs.flatMap fun x => failuresOf x.bucket x.answer
  /-- Every file of a successful bucket has a fate, in order. -/
  emitted : fates.map (·.1) = xs.flatMap fun x => filesOf x.bucket x.request x.answer
  /-- The sink is handed a file iff no earlier one has the same path. -/
  repeated_iff : ∀ i file fate, fates[i]? = some (file, fate) →
    (fate = .repeated ↔ ∃ earlier ∈ fates.take i, file.path ≈ earlier.1.path)
  handed : log = fates.handed
  /-- No path is handed over twice. -/
  distinct : log.Pairwise fun x y => ¬ x.1.path ≈ y.1.path
  /-- The files that the sink took are counted. -/
  written : report.written = fates.countP (·.2 = .written)
  /-- The others are listed, in order. -/
  writeFailures : report.writeFailures = fates.filterMap fun x => x.2.failure? x.1
  total : report.written + report.writeFailures.length = fates.length

/-- Whatever the bundlers answer and the sink takes, a run leaves balanced accounts. -/
structure LeavesBalance (bundlers : Nat → Bundler τ)
    (sink : OutputFile → StateM σ (Except SinkError Unit)) (o : Orchestrator τ) (p : Partition)
    (world : σ) : Prop where
  /-- With one bundler for all requests this is a run. -/
  one : ∀ bundler, o.runEach (fun _ => bundler) sink p = o.run bundler sink p
  /-- A run ends as it does with a record, which shows what the sink was handed. -/
  balanced : ∃ held report world' log fates,
    (o.runEach bundlers sink p).run world = ((held, report), world') ∧
      (o.runEach bundlers (recorded sink) p).run ([], world) = ((held, report), log, world') ∧
        Balanced (exchanges bundlers o p) p log fates report

theorem run_run (sink : OutputFile → StateM σ (Except SinkError Unit)) (world : σ) :
    (o.run bundler sink p).run world =
      (((o.bundle bundler p).2.orchestrator,
        report p (o.bundle bundler p).1 (o.bundle bundler p).2.failures
          ((writeAll sink (markFresh .empty (o.bundle bundler p).2.files)).run world).1),
        ((writeAll sink (markFresh .empty (o.bundle bundler p).2.files)).run world).2) := rfl

/-- What a run hands to the sink are the fresh ones among its files. -/
theorem map_fst_log (sink : OutputFile → StateM σ (Except SinkError Unit)) (world : σ) :
    ((o.run bundler (recorded sink) p).run ([], world)).2.1.map (·.1) =
      ((markFresh .empty (o.bundle bundler p).2.files).filter (·.2)).map (·.1) := by
  obtain ⟨fates, world', hmarked, -, hrecorded⟩ :=
    writeAll_recorded sink (markFresh .empty (o.bundle bundler p).2.files) [] world
  rw [run_run, hrecorded, ← hmarked]
  exact fates.map_fst_handed

section Log

variable {sink : OutputFile → StateM σ (Except SinkError Unit)} {world : σ}

/-- **What a run hands to the sink is one of its files.** -/
theorem mem_files_of_mem_log {x : OutputFile × Except SinkError Unit}
    (hx : x ∈ ((o.run bundler (recorded sink) p).run ([], world)).2.1) :
    x.1 ∈ (o.bundle bundler p).2.files := by
  have hfile : x.1 ∈ ((o.run bundler (recorded sink) p).run ([], world)).2.1.map (·.1) :=
    List.mem_map_of_mem hx
  rw [map_fst_log] at hfile
  obtain ⟨y, hy, heq⟩ := List.mem_map.1 hfile
  rw [← map_fst_markFresh .empty (o.bundle bundler p).2.files, ← heq]
  exact List.mem_map_of_mem (List.mem_of_mem_filter hy)

/-- **Every path of a run is handed to the sink.** -/
theorem exists_mem_log (hfile : file ∈ (o.bundle bundler p).2.files) :
    ∃ x ∈ ((o.run bundler (recorded sink) p).run ([], world)).2.1, x.1.path ≈ file.path := by
  rcases contains_or_exists_fresh .empty hfile with hseen | ⟨g, hg, heq⟩
  · cases hseen
  · have hmem : g ∈ ((o.run bundler (recorded sink) p).run ([], world)).2.1.map (·.1) := by
      rw [map_fst_log]
      exact List.mem_map.2 ⟨(g, true), List.mem_filter.2 ⟨hg, rfl⟩, rfl⟩
    obtain ⟨x, hx, rfl⟩ := List.mem_map.1 hmem
    exact ⟨x, hx, heq⟩

end Log

theorem run_runEach (sink : OutputFile → StateM σ (Except SinkError Unit)) (world : σ) :
    (o.runEach bundlers sink p).run world =
      (((o.bundleEach bundlers p).2.orchestrator,
        report p (o.bundleEach bundlers p).1 (o.bundleEach bundlers p).2.failures
          ((writeAll sink (markFresh .empty (o.bundleEach bundlers p).2.files)).run world).1),
        ((writeAll sink (markFresh .empty (o.bundleEach bundlers p).2.files)).run world).2) := rfl

theorem fst_bundleEach : (o.bundleEach bundlers p).1 = (exchanges bundlers o p).length := by
  rw [exchanges, List.length_map, List.length_zipIdx]
  rfl

theorem failures_bundleEach : (o.bundleEach bundlers p).2.failures =
    (exchanges bundlers o p).flatMap fun x => failuresOf x.bucket x.answer :=
  failures_settleEach _ _

theorem files_bundleEach : (o.bundleEach bundlers p).2.files =
    (exchanges bundlers o p).flatMap fun x => filesOf x.bucket x.request x.answer :=
  files_settleEach _ _

/-- The accounts of a run are those of the fates of its files. -/
theorem balanced_report {fates : Fates}
    (h : fates.marked = markFresh .empty (o.bundleEach bundlers p).2.files) :
    Balanced (exchanges bundlers o p) p fates.handed fates
      (report p (o.bundleEach bundlers p).1 (o.bundleEach bundlers p).2.failures
        fates.results) where
  asked := map_bucket_exchanges bundlers o p
  bundled := fst_bundleEach
  skipped := by
    have hlength : (exchanges bundlers o p).length =
        (p.buckets.filter fun b => !b.isEmpty).length := by
      rw [← List.length_map (·.bucket), map_bucket_exchanges]
    show (o.bundleEach bundlers p).1 + p.buckets.countP (·.isEmpty) = p.buckets.length
    rw [fst_bundleEach, hlength]
    exact length_filter_add_countP p.buckets
  failures := failures_bundleEach
  emitted := (Fates.map_fst_eq h).trans files_bundleEach
  repeated_iff i file fate hi := Fates.eq_repeated_iff h hi
  handed := rfl
  distinct := Fates.pairwise_handed h
  written := fates.written_report p _ _
  writeFailures := fates.writeFailures_report p _ _
  total := by rw [fates.written_report, fates.writeFailures_report, fates.countP_add_length]

/-- **No output of a run is overwritten, lost or counted twice.** -/
theorem run_balanced (bundlers : Nat → Bundler τ)
    (sink : OutputFile → StateM σ (Except SinkError Unit)) (o : Orchestrator τ) (p : Partition)
    (world : σ) : LeavesBalance bundlers sink o p world where
  one bundler := (run_eq_runEach bundler sink o p).symm
  balanced := by
    obtain ⟨fates, world', hmarked, hplain, hrecorded⟩ :=
      writeAll_recorded sink (markFresh .empty (o.bundleEach bundlers p).2.files) [] world
    refine ⟨(o.bundleEach bundlers p).2.orchestrator, _, world', fates.handed, fates, ?_, ?_,
      balanced_report hmarked⟩
    · rw [run_runEach, hplain]
    · rw [run_runEach, hrecorded, List.nil_append]

end Orchestrator

end PackageRouting
