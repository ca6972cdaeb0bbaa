/-
PackageRouting/Proofs/Isolation.lean

A failing bucket does not show in the others.

A run in which the bundler fails for some buckets is compared with the run in
which these buckets have no inputs.  Where the keys of a partition differ, a
bucket makes the request that it would make by itself (`fst_requestAll`), so the
second run makes the requests of the first but for those of the failing buckets
(`issued_emptied`).  A failure leaves no file, so both runs have the same files
to write, and no token, so both hold the same tokens for the other buckets.

Main result: `run_isolated`.
-/
import PackageRouting.Proofs.Tokens
import PackageRouting.Proofs.Writing

namespace PackageRouting

/-- The bucket without its inputs, if it is one of the failing ones. -/
def Bucket.emptied (failing : BucketKey → Bool) (b : Bucket) : Bucket :=
  if failing b.key then { b with inputs := .empty } else b

/-- The partition in which the failing buckets have no inputs. -/
def Partition.emptied (failing : BucketKey → Bool) (p : Partition) : Partition :=
  { p with
    packages := p.packages.map (.emptied failing)
    shared := p.shared.emptied failing }

namespace Orchestrator

variable {τ σ : Type} {o : Orchestrator τ} {bundler : Bundler τ} {options : Options}
  {p : Partition} {b b' : Bucket} {bs : List Bucket} {failing : BucketKey → Bool}
  {key : BucketKey}

/-! ### The emptied partition -/

@[simp] theorem key_emptied : (b.emptied failing).key = b.key := by
  unfold Bucket.emptied
  split <;> rfl

theorem isEmpty_emptied : (b.emptied failing).isEmpty = (failing b.key || b.isEmpty) := by
  unfold Bucket.emptied
  by_cases h : failing b.key
  · rw [if_pos h, h]
    rfl
  · rw [if_neg h, (Bool.not_eq_true _).mp h, Bool.false_or]

theorem emptied_of_not_failing (h : ¬ failing b.key) : b.emptied failing = b := if_neg h

theorem buckets_emptied : (p.emptied failing).buckets = p.buckets.map (.emptied failing) := by
  rw [Partition.buckets, Partition.buckets, List.map_append]
  rfl

@[simp] theorem allKeys_emptied : allKeys (p.emptied failing) = allKeys p := by
  rw [allKeys, buckets_emptied, List.map_map]
  exact List.map_congr_left fun b _ => key_emptied

/-- The buckets with inputs are those of the partition that do not fail. -/
theorem filter_emptied (bs : List Bucket) :
    (bs.map (.emptied failing)).filter (fun b => !b.isEmpty) =
      (bs.filter fun b => !b.isEmpty).filter fun b => !failing b.key := by
  induction bs with
  | nil => rfl
  | cons b rest ih =>
    rw [List.map_cons, List.filter_cons, isEmpty_emptied, ih, List.filter_cons]
    by_cases hb : b.isEmpty
    · simp [hb]
    · by_cases h : failing b.key
      · simp [hb, h]
      · simp [hb, h, emptied_of_not_failing h]

theorem prune_emptied : o.prune (p.emptied failing) = o.prune p := by
  have hany : ∀ key, ((p.emptied failing).buckets.any fun b => b.key == key) =
      p.buckets.any fun b => b.key == key := by
    intro key
    rw [buckets_emptied, List.any_map]
    simp [Function.comp_def]
  simp only [prune, hany]

/-! ### Requests -/

/-- A request takes the token of its own bucket alone. -/
theorem request_request (h : b'.key ≠ b.key) :
    ((o.request options b).2.request options b').1 = (o.request options b').1 := by
  by_cases hon : o.incremental
  · have hrequest : (o.request options b).2 = { o with caches := o.caches.erase b.key } :=
      if_pos hon
    have hfind : (o.caches.erase b.key).find? b'.key = o.caches.find? b'.key := by
      rw [SortedMap.find?_erase, if_neg (by simpa using h)]
    rw [hrequest]
    simp only [request, hfind]
    rfl
  · have hrequest : (o.request options b).2 = o := if_neg hon
    rw [hrequest]

/-- **Where the keys differ, a bucket makes the request that it would make by itself.** -/
theorem fst_requestAll (h : (inputKeys bs).Nodup) :
    (o.requestAll options bs).1 =
      (bs.filter fun b => !b.isEmpty).map fun b => (b, (o.request options b).1) := by
  induction bs generalizing o with
  | nil => rfl
  | cons b rest ih =>
    by_cases hb : b.isEmpty
    · rw [requestAll_of_isEmpty hb, List.filter_cons, if_neg (by simp [hb])]
      rw [inputKeys_of_isEmpty hb] at h
      exact ih h
    · rw [inputKeys_of_not_isEmpty hb] at h
      obtain ⟨hnew, hrest⟩ := List.nodup_cons.1 h
      rw [requestAll_of_not_isEmpty hb, List.filter_cons, if_pos (by simp [hb]), List.map_cons,
        ih hrest]
      refine congrArg (List.cons _) (List.map_congr_left fun b' hb' => ?_)
      have hne : b'.key ≠ b.key := ne_of_mem_of_not_mem (List.mem_map_of_mem hb') hnew
      rw [request_request hne]

/-- **With the failing buckets emptied a run makes the other requests, as they were.** -/
theorem issued_emptied (h : (allKeys p).Nodup) :
    o.issued (p.emptied failing) = (o.issued p).filter fun x => !failing x.1.key := by
  have h' : (allKeys (p.emptied failing)).Nodup := by rwa [allKeys_emptied]
  rw [issued, issued, fst_requestAll (nodup_inputKeys h), fst_requestAll (nodup_inputKeys h'),
    buckets_emptied, filter_emptied, prune_emptied, List.filter_map]
  rfl

theorem mem_requests_emptied (h : (allKeys p).Nodup) {r : Request τ} :
    r ∈ o.requests (p.emptied failing) ↔ r ∈ o.requests p ∧ ¬ failing r.bucket := by
  have hmem : ∀ p : Partition, r ∈ o.requests p ↔ ∃ x ∈ o.issued p, x.2 = r :=
    fun p => List.mem_map
  rw [hmem, hmem, issued_emptied h]
  constructor
  · rintro ⟨x, hx, rfl⟩
    obtain ⟨hx, hfailing⟩ := List.mem_filter.1 hx
    rw [bucket_of_mem_requestAll hx]
    exact ⟨⟨x, hx, rfl⟩, by simpa using hfailing⟩
  · rintro ⟨⟨x, hx, rfl⟩, hfailing⟩
    rw [bucket_of_mem_requestAll hx] at hfailing
    exact ⟨x, List.mem_filter.2 ⟨hx, by simpa using hfailing⟩, rfl⟩

/-! ### Tokens -/

/-- **Both runs hold the same tokens for the buckets that do not fail.** -/
theorem find?_bundle_emptied (hdistinct : (allKeys p).Nodup) (hkey : ¬ failing key) :
    (o.bundle bundler (p.emptied failing)).2.orchestrator.caches.find? key =
      (o.bundle bundler p).2.orchestrator.caches.find? key := by
  have hdistinct' : (allKeys (p.emptied failing)).Nodup := by rwa [allKeys_emptied]
  cases hon : o.incremental with
  | false => rw [bundle_of_off hon, bundle_of_off hon, prune_emptied]
  | true =>
    by_cases hused : ∃ r ∈ o.requests p, r.bucket = key
    · obtain ⟨r, hr, rfl⟩ := hused
      rw [find?_bundle_of_mem hdistinct hon hr,
        find?_bundle_of_mem hdistinct' hon ((mem_requests_emptied hdistinct).2 ⟨hr, hkey⟩)]
    · have hunused : ∀ r ∈ o.requests p, r.bucket ≠ key :=
        fun r hr hrkey => hused ⟨r, hr, hrkey⟩
      have hunused' : ∀ r ∈ o.requests (p.emptied failing), r.bucket ≠ key :=
        fun r hr => hunused r ((mem_requests_emptied hdistinct).1 hr).1
      rw [find?_bundle_of_notMem hon hunused, find?_bundle_of_notMem hon hunused',
        allKeys_emptied]

/-! ### Failures -/

/-- The bundler fails exactly for the requests of some buckets, all of which have inputs. -/
structure FailsFor (bundler : Bundler τ) (o : Orchestrator τ) (p : Partition)
    (failing : BucketKey → Bool) : Prop where
  inputs : ∀ b ∈ p.buckets, failing b.key → ¬ b.isEmpty
  answers : ∀ r ∈ o.requests p, (∃ e, bundler r = .error e) ↔ failing r.bucket

/-- The keys of the failing buckets, in order. -/
def failingKeys (failing : BucketKey → Bool) (p : Partition) : List BucketKey :=
  (allKeys p).filter failing

/-- The failing buckets have inputs, so they are the failing ones among those that have. -/
theorem FailsFor.failingKeys_eq (h : FailsFor bundler o p failing) :
    failingKeys failing p = ((o.issued p).map (·.1.key)).filter failing := by
  have hfilter : ∀ bs : List Bucket, (∀ b ∈ bs, failing b.key → ¬ b.isEmpty) →
      (bs.map (·.key)).filter failing = (inputKeys bs).filter failing := by
    intro bs hbs
    induction bs with
    | nil => rfl
    | cons b rest ih =>
      have hrest := ih fun b' hb' => hbs b' (List.mem_cons_of_mem b hb')
      rw [List.map_cons, List.filter_cons, hrest]
      by_cases hb : b.isEmpty
      · have hnot : ¬ failing b.key := fun hf => hbs b List.mem_cons_self hf hb
        rw [if_neg hnot, inputKeys_of_isEmpty hb]
      · rw [inputKeys_of_not_isEmpty hb, List.filter_cons]
  rw [map_key_issued]
  exact hfilter p.buckets h.inputs

section Answers

variable (h : FailsFor bundler o p failing)

include h

theorem FailsFor.answer_of_mem_issued {x : Bucket × Request τ} (hx : x ∈ o.issued p) :
    (∃ e, bundler x.2 = .error e) ↔ failing x.1.key := by
  rw [← bucket_of_mem_requestAll hx]
  exact h.answers x.2 (List.mem_map_of_mem hx)

/-- No failing bucket leaves a file. -/
theorem FailsFor.filesOf_eq_nil {x : Bucket × Request τ} (hx : x ∈ o.issued p)
    (hfailing : failing x.1.key) : filesOf x.1 x.2 (bundler x.2) = [] := by
  obtain ⟨e, he⟩ := (h.answer_of_mem_issued hx).2 hfailing
  rw [he]
  rfl

/-- The failure of a request says which bucket it is for. -/
theorem FailsFor.map_bucket_failuresOf {x : Bucket × Request τ} (hx : x ∈ o.issued p) :
    (failuresOf x.1 (bundler x.2)).map (·.bucket) = [x.1.key].filter failing := by
  cases hanswer : bundler x.2 with
  | error e =>
    have hfailing := (h.answer_of_mem_issued hx).1 ⟨e, hanswer⟩
    rw [List.filter_cons, if_pos hfailing]
    rfl
  | ok emitted =>
    have hnot : ¬ failing x.1.key := by
      intro hfailing
      obtain ⟨e, he⟩ := (h.answer_of_mem_issued hx).2 hfailing
      rw [hanswer] at he
      cases he
    rw [List.filter_cons, if_neg hnot]
    rfl

/-- **The failures of a run are those of the failing buckets**, in order. -/
theorem FailsFor.map_bucket_failures :
    (o.bundle bundler p).2.failures.map (·.bucket) = failingKeys failing p := by
  rw [bundle_eq_settleAll, failures_settleAll, List.nil_append, List.map_flatMap,
    h.failingKeys_eq, List.flatMap_congr fun x hx => h.map_bucket_failuresOf hx,
    List.map_eq_flatMap, List.filter_flatMap]

/-- The requests of the run with the failing buckets emptied all succeed. -/
theorem FailsFor.emptied (hdistinct : (allKeys p).Nodup) :
    FailsFor bundler o (p.emptied failing) fun _ => false where
  inputs b hb hf := by cases hf
  answers r hr := by
    obtain ⟨hr, hnot⟩ := (mem_requests_emptied hdistinct).1 hr
    rw [h.answers r hr]
    simp [hnot]

/-- **Both runs have the same files to write.** -/
theorem FailsFor.files_emptied (hdistinct : (allKeys p).Nodup) :
    (o.bundle bundler (p.emptied failing)).2.files = (o.bundle bundler p).2.files := by
  rw [bundle_eq_settleAll, bundle_eq_settleAll, files_settleAll, files_settleAll,
    issued_emptied hdistinct]
  apply flatMap_filter_of_nil
  intro x hx hfailing
  exact h.filesOf_eq_nil hx (by simpa using hfailing)

/-- **No token is held for a bucket that failed.** -/
theorem FailsFor.find?_of_failing (hdistinct : (allKeys p).Nodup) (hon : o.incremental)
    (hkey : failing key) : (o.bundle bundler p).2.orchestrator.caches.find? key = none := by
  by_cases hused : ∃ r ∈ o.requests p, r.bucket = key
  · obtain ⟨r, hr, rfl⟩ := hused
    obtain ⟨e, he⟩ := (h.answers r hr).2 hkey
    rw [find?_bundle_of_mem hdistinct hon hr, he]
    rfl
  · -- a failing bucket of the partition has inputs, and so makes a request
    have hunused : ∀ r ∈ o.requests p, r.bucket ≠ key :=
      fun r hr hrkey => hused ⟨r, hr, hrkey⟩
    rw [find?_bundle_of_notMem hon hunused, if_neg]
    intro hmem
    have hfailing : key ∈ failingKeys failing p := List.mem_filter.2 ⟨hmem, hkey⟩
    rw [h.failingKeys_eq] at hfailing
    obtain ⟨x, hx, rfl⟩ := List.mem_map.1 (List.mem_of_mem_filter hfailing)
    exact hunused x.2 (List.mem_map_of_mem hx) (bucket_of_mem_requestAll hx)

/-- The failing buckets are those that make a request in one run only. -/
theorem FailsFor.fst_bundle (hdistinct : (allKeys p).Nodup) :
    (o.bundle bundler p).1 =
      (o.bundle bundler (p.emptied failing)).1 + (failingKeys failing p).length := by
  rw [bundle_eq_settleAll, bundle_eq_settleAll, issued_emptied hdistinct, h.failingKeys_eq,
    List.filter_map, List.length_map, Nat.add_comm,
    List.length_eq_length_filter_add fun x => failing x.1.key]
  rfl

end Answers

/-! ### Two runs -/

/-- What two runs leave, in one of which some buckets fail while in the other they have no
inputs. -/
structure DifferInFailures (o : Orchestrator τ) (p : Partition) (failing : BucketKey → Bool)
    (x y : Orchestrator τ × BundleReport) : Prop where
  written : x.2.written = y.2.written
  writeFailures : x.2.writeFailures = y.2.writeFailures
  /-- The failing buckets count as bundled in one run, and as skipped in the other. -/
  bundled : x.2.bundled = y.2.bundled + (failingKeys failing p).length
  skipped : y.2.skipped = x.2.skipped + (failingKeys failing p).length
  /-- They are listed once each, and no other bucket is. -/
  failures : x.2.failures.map (·.bucket) = failingKeys failing p
  once : (failingKeys failing p).Nodup
  noFailures : y.2.failures = []
  /-- The tokens of the others are the same. -/
  tokens : ∀ key, ¬ failing key → x.1.caches.find? key = y.1.caches.find? key
  dropped : o.incremental → ∀ key, failing key → x.1.caches.find? key = none

/-- The same results of writing are reported by both runs. -/
theorem FailsFor.differInFailures (h : FailsFor bundler o p failing)
    (hdistinct : (allKeys p).Nodup) (results : List (OutputFile × Except SinkError Unit)) :
    DifferInFailures o p failing
      ((o.bundle bundler p).2.orchestrator,
        report p (o.bundle bundler p).1 (o.bundle bundler p).2.failures results)
      ((o.bundle bundler (p.emptied failing)).2.orchestrator,
        report (p.emptied failing) (o.bundle bundler (p.emptied failing)).1
          (o.bundle bundler (p.emptied failing)).2.failures results) where
  written := rfl
  writeFailures := rfl
  bundled := h.fst_bundle hdistinct
  skipped := by
    show (p.emptied failing).buckets.countP (·.isEmpty) =
      p.buckets.countP (·.isEmpty) + (failingKeys failing p).length
    have hlength : (p.emptied failing).buckets.length = p.buckets.length := by
      rw [buckets_emptied, List.length_map]
    -- what is not skipped is bundled, in both runs
    have hsum := length_filter_add_countP p.buckets
    have hsum' := length_filter_add_countP (p.emptied failing).buckets
    have hbundled := h.fst_bundle hdistinct
    rw [bundle_eq_settleAll, bundle_eq_settleAll, length_issued, length_issued] at hbundled
    omega
  failures := h.map_bucket_failures
  once := hdistinct.filter _
  noFailures := by
    have hdistinct' : (allKeys (p.emptied failing)).Nodup := by rwa [allKeys_emptied]
    have hnone := (h.emptied hdistinct).map_bucket_failures
    have hkeys : failingKeys (fun _ => false) (p.emptied failing) = [] :=
      List.filter_eq_nil_iff.2 fun _ _ => Bool.false_ne_true
    rw [hkeys] at hnone
    exact List.map_eq_nil_iff.1 hnone
  tokens key hkey := (find?_bundle_emptied hdistinct hkey).symm
  dropped hon key hkey := h.find?_of_failing hdistinct hon hkey

/-- **A failing bucket leaves the others as they are.**  The sink is handed the same files as in the
run in which the failing buckets have no inputs, and what it makes of them is reported alike. -/
theorem run_isolated (bundler : Bundler τ) (sink : OutputFile → StateM σ (Except SinkError Unit))
    (o : Orchestrator τ) (p : Partition) (failing : BucketKey → Bool) (world : σ)
    (hdistinct : (allKeys p).Nodup) (h : FailsFor bundler o p failing) :
    ∃ after after' world' log,
      (o.run bundler sink p).run world = (after, world') ∧
      (o.run bundler sink (p.emptied failing)).run world = (after', world') ∧
      (o.run bundler (recorded sink) p).run ([], world) = (after, log, world') ∧
      (o.run bundler (recorded sink) (p.emptied failing)).run ([], world) = (after', log, world') ∧
      DifferInFailures o p failing after after' := by
  obtain ⟨fates, world', -, hplain, hrecorded⟩ :=
    writeAll_recorded sink (markFresh .empty (o.bundle bundler p).2.files) [] world
  refine ⟨_, _, world', fates.handed, ?_, ?_, ?_, ?_, h.differInFailures hdistinct fates.results⟩
  · rw [run_run, hplain]
  · rw [run_run, h.files_emptied hdistinct, hplain]
  · rw [run_run, hrecorded, List.nil_append]
  · rw [run_run, h.files_emptied hdistinct, hrecorded, List.nil_append]

/-- Two packages whose directories are one, each with a file of the same name. -/
def samePlace : Partition where
  packages := [{ key := .package "ui", inputs := .ofList ["ui/a.js"] },
    { key := .package "./ui", inputs := .ofList ["lib/a.js"] }]
  shared := { key := .shared, inputs := .ofList ["main.js"] }
  sourceMaps := false

/-- A bundler that names each chunk for its input, counts its answers for a bucket, and fails for one
bucket. -/
def naming (failing : BucketKey) : Bundler Nat := fun r =>
  if r.bucket = failing then .error { message := "syntax error" }
  else .ok {
    chunks := r.inputs.map fun q => { name := "", fileName := q.outputName, code := "" }
    cache := some (r.cache.getD 0 + 1) }

theorem failsFor_naming {o : Orchestrator Nat} {failing : BucketKey}
    (h : ∀ b ∈ p.buckets, b.key = failing → ¬ b.isEmpty) :
    FailsFor (naming failing) o p (· == failing) where
  inputs b hb hkey := h b hb (by simpa using hkey)
  answers r _ := by
    rw [naming, beq_iff_eq]
    split <;> simp [*]

/-- An orchestrator that holds tokens for both packages. -/
def holding : Orchestrator Nat where
  outDir := "site"
  overrides := {}
  incremental := true
  caches := .ofList [(.package "ui", 5), (.package "./ui", 7)]

/-- The package that fails does not reserve its path, and the other one is written there. -/
theorem run_isolated_samePlace :
    let run p := (holding.run (naming (.package "ui")) (recorded (accepting fun _ => pure ())) p :
      StateM (List (OutputFile × Except SinkError Unit) × Unit) _).run ([], ())
    (allKeys samePlace).Nodup ∧
      FailsFor (naming (.package "ui")) holding samePlace (· == .package "ui") ∧
      ∃ after after' log,
        run samePlace = (after, log, ()) ∧
        run (samePlace.emptied (· == .package "ui")) = (after', log, ()) ∧
        DifferInFailures holding samePlace (· == .package "ui") after after' ∧
        log.map (·.1.path.text) = ["site/./ui/a.js", "site/main.js"] ∧
        after.1.caches.entries = [(.shared, 1), (.package "./ui", 8)] := by
  intro run
  have hdistinct : (allKeys samePlace).Nodup := by decide
  have hfails : FailsFor (naming (.package "ui")) holding samePlace (· == .package "ui") :=
    failsFor_naming (by decide)
  obtain ⟨after, after', _, log, -, -, hrun, hrun', hdiffer⟩ :=
    run_isolated (naming (.package "ui")) (accepting fun _ => pure ()) holding samePlace
      (· == .package "ui") () hdistinct hfails
  have hlog : (run samePlace).2.1 = log := congrArg (·.2.1) hrun
  have hafter : (run samePlace).1 = after := congrArg (·.1) hrun
  refine ⟨hdistinct, hfails, after, after', log, hrun, hrun', hdiffer, ?_, ?_⟩
  · rw [← hlog]
    decide +kernel
  · rw [← hafter]
    decide +kernel

end Orchestrator

end PackageRouting
