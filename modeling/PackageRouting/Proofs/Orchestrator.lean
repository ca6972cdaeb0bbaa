/-
PackageRouting/Proofs/Orchestrator.lean

What a run makes of a partition, bucket by bucket.

The requests of a run differ from those of a run without tokens in their tokens
alone (`bare_issued`), and the answers are taken one by one: the failures and
the files of a run are those of its buckets, in order (`failures_bundle`,
`files_bundle`).  So where a bundler answers every request as it would without
the token, a run depends on the partition and on the settings only.

Files with pairwise different paths are all written, in order, and a sink that
takes every file leaves a clean report (`run_accepting`).

A run changes the tokens alone (`withoutTokens_bundle`).  Those that it leaves
were held before or came with its answers; what holds of all of them is kept by
every operation (`HoldsOnly`).

Main results: `report_run_congr`, `run_accepting`, `HoldsOnly.bundle`.
-/
import PackageRouting.Orchestrator
import PackageRouting.Proofs.Path.Spelling
import PackageRouting.Proofs.SortedMap

namespace PackageRouting

/-- The request as it is made where no token is held. -/
def Request.bare {τ : Type} (r : Request τ) : Request τ := { r with cache := none }

namespace Orchestrator

variable {τ : Type} {o o' : Orchestrator τ} {P : τ → Prop} {bundler : Bundler τ}
  {options : Options} {p : Partition} {b : Bucket} {bs : List Bucket}

/-! ### Settings -/

/-- What a run never changes, and depends on. -/
def settings (o : Orchestrator τ) : Path × Overrides := (o.outDir, o.overrides)

/-- The orchestrator as it is where no token is held. -/
def withoutTokens (o : Orchestrator τ) : Orchestrator τ := { o with caches := .empty }

theorem settings_congr (h : o.withoutTokens = o'.withoutTokens) : o.settings = o'.settings := by
  show o.withoutTokens.settings = o'.withoutTokens.settings
  rw [h]

@[simp] theorem withoutTokens_prune : (o.prune p).withoutTokens = o.withoutTokens := rfl

@[simp] theorem withoutTokens_request :
    (o.request options b).2.withoutTokens = o.withoutTokens := by
  unfold request
  split <;> rfl

@[simp] theorem withoutTokens_keepToken (key : BucketKey) (token : Option τ) :
    (o.keepToken key token).withoutTokens = o.withoutTokens := by
  unfold keepToken
  split
  · split <;> rfl
  · rfl

theorem settings_request : (o.request options b).2.settings = o.settings :=
  settings_congr withoutTokens_request

/-! ### Requests -/

/-- The request for a bucket without a token. -/
def plainRequest (settings : Path × Overrides) (sourceMaps : Bool) (b : Bucket) : Request τ where
  bucket := b.key
  inputs := b.inputs.toList
  outputNames := b.outputNames
  outDir :=
    match b.key with
    | .shared => settings.1
    | .package name => settings.1.join name
  options := .resolve settings.2 sourceMaps
  cache := none

section Cons

variable {rest : List Bucket}

theorem requestAll_of_isEmpty (hb : b.isEmpty) :
    o.requestAll options (b :: rest) = o.requestAll options rest := if_pos hb

theorem requestAll_of_not_isEmpty (hb : ¬ b.isEmpty) :
    o.requestAll options (b :: rest) =
      ((b, (o.request options b).1) :: ((o.request options b).2.requestAll options rest).1,
        ((o.request options b).2.requestAll options rest).2) := if_neg hb

end Cons

@[simp] theorem withoutTokens_requestAll :
    (o.requestAll options bs).2.withoutTokens = o.withoutTokens := by
  induction bs generalizing o with
  | nil => rfl
  | cons b rest ih =>
    by_cases hb : b.isEmpty
    · rw [requestAll_of_isEmpty hb, ih]
    · rw [requestAll_of_not_isEmpty hb, ih, withoutTokens_request]

/-- The buckets of a run that have inputs, with their requests. -/
def issued (o : Orchestrator τ) (p : Partition) : List (Bucket × Request τ) :=
  ((o.prune p).requestAll (.resolve o.overrides p.sourceMaps) p.buckets).1

theorem bare_request (o : Orchestrator τ) (sourceMaps : Bool) (b : Bucket) {settings}
    (h : o.settings = settings) :
    (o.request (.resolve settings.2 sourceMaps) b).1.bare =
      plainRequest settings sourceMaps b := by
  subst h
  rw [request, Request.bare, plainRequest]
  congr 1

theorem bare_requestAll {settings} (h : o.settings = settings) (sourceMaps : Bool)
    (bs : List Bucket) :
    (o.requestAll (.resolve settings.2 sourceMaps) bs).1.map (fun x => (x.1, x.2.bare)) =
      (bs.filter fun b => !b.isEmpty).map fun b => (b, plainRequest settings sourceMaps b) := by
  -- the tokens move out of `o` one by one, its settings stay
  induction bs generalizing o with
  | nil => rfl
  | cons b rest ih =>
    rw [requestAll, List.filter_cons]
    by_cases hb : b.isEmpty
    · rw [if_pos hb, if_neg (by simp [hb])]
      exact ih h
    · rw [if_neg hb, if_pos (by simp [hb]), List.map_cons, List.map_cons,
        ← ih (settings_request.trans h), ← bare_request o sourceMaps b h]

/-- **But for the tokens, the requests of a run depend on the settings only.** -/
theorem bare_issued (o : Orchestrator τ) (p : Partition) :
    (o.issued p).map (fun x => (x.1, x.2.bare)) =
      (p.buckets.filter fun b => !b.isEmpty).map fun b =>
        (b, plainRequest o.settings p.sourceMaps b) :=
  bare_requestAll (o := o.prune p) rfl p.sourceMaps p.buckets

theorem length_issued (o : Orchestrator τ) (p : Partition) :
    (o.issued p).length = (p.buckets.filter fun b => !b.isEmpty).length := by
  have h := congrArg List.length (bare_issued o p)
  simpa using h

/-- **A bucket makes a request or is skipped.** -/
theorem length_filter_add_countP (bs : List Bucket) :
    (bs.filter fun b => !b.isEmpty).length + bs.countP (·.isEmpty) = bs.length := by
  rw [← List.countP_eq_length_filter, Nat.add_comm,
    List.length_eq_countP_add_countP fun b : Bucket => b.isEmpty]
  simp

/-- **A request is made for a bucket of the partition**, and says what the bucket says. -/
theorem bare_of_mem_issued {x : Bucket × Request τ} (hx : x ∈ o.issued p) :
    x.1 ∈ p.buckets ∧ x.2.bare = plainRequest o.settings p.sourceMaps x.1 := by
  have hmem : (x.1, x.2.bare) ∈ (o.issued p).map (fun x => (x.1, x.2.bare)) :=
    List.mem_map.2 ⟨x, hx, rfl⟩
  rw [bare_issued] at hmem
  obtain ⟨b, hb, heq⟩ := List.mem_map.1 hmem
  obtain ⟨rfl, hrequest⟩ := Prod.mk.inj heq
  exact ⟨(List.mem_filter.1 hb).1, hrequest.symm⟩

/-- A bucket with inputs makes a request. -/
theorem exists_mem_issued (hb : b ∈ p.buckets) (hne : ¬ b.isEmpty) : ∃ x ∈ o.issued p, x.1 = b := by
  have hmem : (b, plainRequest o.settings p.sourceMaps b) ∈
      (o.issued p).map fun x => (x.1, x.2.bare) := by
    rw [bare_issued]
    exact List.mem_map_of_mem (List.mem_filter.2 ⟨hb, by simpa using hne⟩)
  obtain ⟨x, hx, heq⟩ := List.mem_map.1 hmem
  exact ⟨x, hx, (Prod.mk.inj heq).1⟩

theorem mem_buckets_of_mem_issued {x : Bucket × Request τ} (hx : x ∈ o.issued p) :
    x.1 ∈ p.buckets ∧ x.2.inputs = x.1.inputs.toList := by
  obtain ⟨hbucket, hbare⟩ := bare_of_mem_issued hx
  exact ⟨hbucket, congrArg Request.inputs hbare⟩

/-! ### Answers -/

/-- What comes to nothing may be left out. -/
theorem flatMap_filter_of_nil {α β : Type*} {l : List α} {keep : α → Bool} {f : α → List β}
    (h : ∀ a ∈ l, keep a = false → f a = []) : (l.filter keep).flatMap f = l.flatMap f := by
  induction l with
  | nil => rfl
  | cons a rest ih =>
    have hrest := ih fun a' ha' => h a' (List.mem_cons_of_mem a ha')
    rw [List.filter_cons, List.flatMap_cons]
    split
    · rw [List.flatMap_cons, hrest]
    · next hkeep => rw [h a List.mem_cons_self (by simpa using hkeep), hrest, List.nil_append]

/-- The failure that an answer is. -/
def failuresOf (b : Bucket) : Except BundlerError (Emitted τ) → List BucketFailure
  | .error e => [⟨b.key, e⟩]
  | .ok _ => []

/-- The files that come of an answer. -/
def filesOf (b : Bucket) (r : Request τ) : Except BundlerError (Emitted τ) → List OutputFile
  | .error _ => []
  | .ok emitted => OutputFile.ofEmitted b emitted.chunks emitted.assets r.outDir r.options.minify

/-- The token that an answer comes with. -/
def tokenOf : Except BundlerError (Emitted τ) → Option τ
  | .error _ => none
  | .ok emitted => emitted.cache

theorem orchestrator_settle (s : Settled τ) (b : Bucket) (r : Request τ)
    (answer : Except BundlerError (Emitted τ)) :
    (settle s b r answer).orchestrator = s.orchestrator.keepToken b.key (tokenOf answer) := by
  cases answer <;> rfl

theorem failures_settle (s : Settled τ) (b : Bucket) (r : Request τ)
    (answer : Except BundlerError (Emitted τ)) :
    (settle s b r answer).failures = s.failures ++ failuresOf b answer := by
  cases answer with
  | error e => rfl
  | ok emitted => exact (List.append_nil _).symm

theorem files_settle (s : Settled τ) (b : Bucket) (r : Request τ)
    (answer : Except BundlerError (Emitted τ)) :
    (settle s b r answer).files = s.files ++ filesOf b r answer := by
  cases answer with
  | error e => exact (List.append_nil _).symm
  | ok emitted => rfl

/-- A request of a run, and the answer to it. -/
structure Exchange (τ : Type) where
  bucket : Bucket
  request : Request τ
  answer : Except BundlerError (Emitted τ)

/-- Takes answers one by one. -/
def settleEach (s : Settled τ) (xs : List (Exchange τ)) : Settled τ :=
  xs.foldl (fun s x => settle s x.bucket x.request x.answer) s

theorem failures_settleEach (s : Settled τ) (xs : List (Exchange τ)) :
    (settleEach s xs).failures = s.failures ++ xs.flatMap fun x => failuresOf x.bucket x.answer := by
  induction xs generalizing s with
  | nil => exact (List.append_nil _).symm
  | cons x rest ih =>
    rw [settleEach, List.foldl_cons, ← settleEach, ih, failures_settle, List.flatMap_cons,
      List.append_assoc]

theorem files_settleEach (s : Settled τ) (xs : List (Exchange τ)) :
    (settleEach s xs).files =
      s.files ++ xs.flatMap fun x => filesOf x.bucket x.request x.answer := by
  induction xs generalizing s with
  | nil => exact (List.append_nil _).symm
  | cons x rest ih =>
    rw [settleEach, List.foldl_cons, ← settleEach, ih, files_settle, List.flatMap_cons,
      List.append_assoc]

/-- Takes the answers to all requests. -/
def settleAll (bundler : Bundler τ) (s : Settled τ) (issued : List (Bucket × Request τ)) :
    Settled τ :=
  issued.foldl (fun s x => settle s x.1 x.2 (bundler x.2)) s

theorem settleAll_eq_settleEach (s : Settled τ) (issued : List (Bucket × Request τ)) :
    settleAll bundler s issued = settleEach s (issued.map fun x => ⟨x.1, x.2, bundler x.2⟩) := by
  rw [settleAll, settleEach, List.foldl_map]

theorem failures_settleAll (s : Settled τ) (issued : List (Bucket × Request τ)) :
    (settleAll bundler s issued).failures =
      s.failures ++ issued.flatMap fun x => failuresOf x.1 (bundler x.2) := by
  rw [settleAll_eq_settleEach, failures_settleEach, List.flatMap_map]

theorem files_settleAll (s : Settled τ) (issued : List (Bucket × Request τ)) :
    (settleAll bundler s issued).files =
      s.files ++ issued.flatMap fun x => filesOf x.1 x.2 (bundler x.2) := by
  rw [settleAll_eq_settleEach, files_settleEach, List.flatMap_map]

@[simp] theorem withoutTokens_settleAll (s : Settled τ) (issued : List (Bucket × Request τ)) :
    (settleAll bundler s issued).orchestrator.withoutTokens = s.orchestrator.withoutTokens := by
  induction issued generalizing s with
  | nil => rfl
  | cons x rest ih =>
    rw [settleAll, List.foldl_cons, ← settleAll, ih, orchestrator_settle, withoutTokens_keepToken]

theorem bundle_eq_settleAll (bundler : Bundler τ) (o : Orchestrator τ) (p : Partition) :
    o.bundle bundler p = ((o.issued p).length,
      settleAll bundler
        { orchestrator :=
            ((o.prune p).requestAll (.resolve o.overrides p.sourceMaps) p.buckets).2 }
        (o.issued p)) := rfl

/-- The bundler answers every request of a run as it would without the token. -/
def Transparent (bundler : Bundler τ) (o : Orchestrator τ) (p : Partition) : Prop :=
  ∀ x ∈ o.issued p, bundler x.2 = bundler x.2.bare

/-- A list made from the answers of a run, request by request. -/
theorem flatMap_issued {α : Type} (h : Transparent bundler o p)
    {f : Bucket → Request τ → Except BundlerError (Emitted τ) → List α}
    (hf : ∀ b r answer, f b r answer = f b r.bare answer) :
    ((o.issued p).flatMap fun x => f x.1 x.2 (bundler x.2)) =
      (p.buckets.filter fun b => !b.isEmpty).flatMap fun b =>
        f b (plainRequest o.settings p.sourceMaps b)
          (bundler (plainRequest o.settings p.sourceMaps b)) := by
  -- every request may be replaced by the one without the token
  have hbare : ((o.issued p).flatMap fun x => f x.1 x.2 (bundler x.2)) =
      ((o.issued p).map fun x => (x.1, x.2.bare)).flatMap fun x => f x.1 x.2 (bundler x.2) := by
    rw [List.flatMap_map]
    apply List.flatMap_congr
    intro x hx
    rw [h x hx, hf]
  rw [hbare, bare_issued, List.flatMap_map]

/-- **The failures of a run are those of its buckets**, in order. -/
theorem failures_bundle (h : Transparent bundler o p) :
    (o.bundle bundler p).2.failures =
      (p.buckets.filter fun b => !b.isEmpty).flatMap fun b =>
        failuresOf b (bundler (plainRequest o.settings p.sourceMaps b)) := by
  rw [bundle_eq_settleAll, failures_settleAll, List.nil_append]
  exact flatMap_issued (f := fun b _ answer => failuresOf b answer) h fun _ _ _ => rfl

/-- **The files of a run are those of its buckets**, in order. -/
theorem files_bundle (h : Transparent bundler o p) :
    (o.bundle bundler p).2.files =
      (p.buckets.filter fun b => !b.isEmpty).flatMap fun b =>
        filesOf b (plainRequest o.settings p.sourceMaps b)
          (bundler (plainRequest o.settings p.sourceMaps b)) := by
  rw [bundle_eq_settleAll, files_settleAll, List.nil_append]
  exact flatMap_issued (f := filesOf) h fun _ _ _ => rfl

/-- **A run changes the tokens alone.** -/
@[simp] theorem withoutTokens_bundle :
    (o.bundle bundler p).2.orchestrator.withoutTokens = o.withoutTokens := by
  rw [bundle_eq_settleAll, withoutTokens_settleAll, withoutTokens_requestAll, withoutTokens_prune]

theorem settings_bundle : (o.bundle bundler p).2.orchestrator.settings = o.settings :=
  settings_congr withoutTokens_bundle

/-! ### Reports -/

/-- **Two runs over a partition report alike and hand over the same files**, if they have the same
settings and the tokens do not show in the answers. -/
theorem report_run_congr {m : Type → Type} [Monad m] [LawfulMonad m]
    (sink : OutputFile → m (Except SinkError Unit)) (hsettings : o.settings = o'.settings)
    (h : Transparent bundler o p) (h' : Transparent bundler o' p) :
    (·.2) <$> o.run bundler sink p = (·.2) <$> o'.run bundler sink p := by
  have hcount : (o.bundle bundler p).1 = (o'.bundle bundler p).1 := by
    rw [bundle_eq_settleAll, bundle_eq_settleAll, length_issued, length_issued]
  have hfailures : (o.bundle bundler p).2.failures = (o'.bundle bundler p).2.failures := by
    rw [failures_bundle h, failures_bundle h', hsettings]
  have hfiles : (o.bundle bundler p).2.files = (o'.bundle bundler p).2.files := by
    rw [files_bundle h, files_bundle h', hsettings]
  simp only [run, map_bind, map_pure, hcount, hfailures, hfiles]

/-! ### Writing -/

/-- Files with pairwise different paths are all fresh. -/
theorem markFresh_of_pairwise {seen : SortedSet Path} {files : List OutputFile}
    (hseen : ∀ f ∈ files, ¬ seen.contains f.path)
    (h : files.Pairwise fun f g => ¬ f.path ≈ g.path) :
    markFresh seen files = files.map fun f => (f, true) := by
  induction files generalizing seen with
  | nil => rfl
  | cons f rest ih =>
    obtain ⟨hf, hrest⟩ := List.pairwise_cons.1 h
    have hfresh : seen.contains f.path = false := by simpa using hseen f List.mem_cons_self
    have hseen' : ∀ g ∈ rest, ¬ (seen.insert f.path).contains g.path := by
      intro g hg hmem
      rcases (SortedSet.contains_insert seen f.path g.path).1 hmem with heq | hmem
      · exact hf g hg (Path.equiv_symm (Path.compare_eq_iff.1 heq))
      · exact hseen g (List.mem_cons_of_mem f hg) hmem
    rw [markFresh, hfresh, ih hseen' hrest]
    rfl

/-- A sink that takes every file. -/
def accepting {m : Type → Type} [Monad m] (effect : OutputFile → m Unit) (file : OutputFile) :
    m (Except SinkError Unit) := do
  effect file
  return .ok ()

/-- A sink that takes every file is handed the fresh ones in order. -/
theorem writeAll_accepting {m : Type → Type} [Monad m] [LawfulMonad m]
    (effect : OutputFile → m Unit) (files : List OutputFile) :
    writeAll (accepting effect) (files.map fun f => (f, true)) = do
      files.forM effect
      return files.map fun f => (f, .ok ()) := by
  induction files with
  | nil => simp [writeAll]
  | cons f rest ih => simp [writeAll, accepting, ih]

/-- What a run reports when nothing failed and every file was written. -/
def cleanReport (p : Partition) (bundled : Nat) (files : List OutputFile) : BundleReport :=
  report p bundled [] (files.map fun f => (f, .ok ()))

theorem isClean_cleanReport (p : Partition) (bundled : Nat) (files : List OutputFile) :
    (cleanReport p bundled files).isClean := by
  have hnone : (cleanReport p bundled files).writeFailures = [] := by
    rw [cleanReport, report]
    simp [List.filterMap_map]
  rw [BundleReport.isClean, hnone]
  rfl

theorem written_cleanReport (p : Partition) (bundled : Nat) (files : List OutputFile) :
    (cleanReport p bundled files).written = files.length := by
  rw [cleanReport, report, List.countP_map]
  simp [Except.isOk, Except.toBool, Function.comp_def]

/-- **A run whose buckets all succeed hands every file over**, if the files have pairwise different
paths and the sink takes them. -/
theorem run_accepting {m : Type → Type} [Monad m] [LawfulMonad m] (effect : OutputFile → m Unit)
    (hfailures : (o.bundle bundler p).2.failures = [])
    (h : (o.bundle bundler p).2.files.Pairwise fun f g => ¬ f.path ≈ g.path) :
    (·.2) <$> o.run bundler (accepting effect) p = do
      (o.bundle bundler p).2.files.forM effect
      return cleanReport p (o.bundle bundler p).1 (o.bundle bundler p).2.files := by
  have hmark : markFresh .empty (o.bundle bundler p).2.files =
      (o.bundle bundler p).2.files.map fun f => (f, true) :=
    markFresh_of_pairwise (fun _ _ => Bool.false_ne_true) h
  simp only [run, hmark, writeAll_accepting, hfailures, bind_assoc, pure_bind, map_bind, map_pure,
    cleanReport]

/-! ### Tokens -/

/-- All held tokens have a property. -/
def HoldsOnly (P : τ → Prop) (o : Orchestrator τ) : Prop :=
  ∀ key token, o.caches.find? key = some token → P token

theorem holdsOnly_of_caches_eq_empty (h : o.caches = .empty) : HoldsOnly P o := by
  intro key token hfind
  rw [h] at hfind
  cases hfind

theorem HoldsOnly.imp {Q : τ → Prop} (h : HoldsOnly P o) (hPQ : ∀ token, P token → Q token) :
    HoldsOnly Q o :=
  fun key token hfind => hPQ token (h key token hfind)

theorem HoldsOnly.setIncremental (h : HoldsOnly P o) (incremental : Bool) :
    HoldsOnly P (o.setIncremental incremental) := by
  cases incremental with
  | false => exact holdsOnly_of_caches_eq_empty rfl
  | true => exact h

theorem HoldsOnly.prune (h : HoldsOnly P o) : HoldsOnly P (o.prune p) := by
  intro key token hfind
  obtain ⟨key', hkey, hmem, -⟩ := SortedMap.find?_filter_eq_some_iff.1 hfind
  exact h key token (SortedMap.find?_eq_some_iff.2 ⟨key', hkey, hmem⟩)

theorem HoldsOnly.request (h : HoldsOnly P o) : HoldsOnly P (o.request options b).2 := by
  show HoldsOnly P (if o.incremental then { o with caches := o.caches.erase b.key } else o)
  split
  · intro key token hfind
    rw [SortedMap.find?_erase] at hfind
    split at hfind
    · cases hfind
    · exact h key token hfind
  · exact h

theorem HoldsOnly.of_cache_request (h : HoldsOnly P o) {token : τ}
    (htoken : (o.request options b).1.cache = some token) : P token := by
  replace htoken : (if o.incremental then o.caches.find? b.key else none) = some token := htoken
  split at htoken
  · exact h b.key token htoken
  · cases htoken

theorem HoldsOnly.requestAll (h : HoldsOnly P o) : HoldsOnly P (o.requestAll options bs).2 := by
  induction bs generalizing o with
  | nil => exact h
  | cons b rest ih =>
    rw [Orchestrator.requestAll]
    split
    · exact ih h
    · exact ih h.request

/-- The tokens that go into requests were held. -/
theorem HoldsOnly.of_cache_requestAll (h : HoldsOnly P o) {x : Bucket × Request τ}
    (hx : x ∈ (o.requestAll options bs).1) {token : τ} (htoken : x.2.cache = some token) :
    P token := by
  induction bs generalizing o with
  | nil => cases hx
  | cons b rest ih =>
    rw [Orchestrator.requestAll] at hx
    split at hx
    · exact ih h hx
    · rcases List.mem_cons.1 hx with rfl | hx
      · exact h.of_cache_request htoken
      · exact ih h.request hx

theorem HoldsOnly.keepToken (h : HoldsOnly P o) (key : BucketKey) {token : Option τ}
    (htoken : ∀ t, token = some t → P t) : HoldsOnly P (o.keepToken key token) := by
  unfold Orchestrator.keepToken
  split
  · next t =>
    split
    · intro key' token' hfind
      rw [SortedMap.find?_insert] at hfind
      split at hfind
      · obtain rfl : t = token' := Option.some.inj hfind
        exact htoken t rfl
      · exact h key' token' hfind
    · exact h
  · exact h

theorem HoldsOnly.settleAll {s : Settled τ} {issued : List (Bucket × Request τ)}
    (h : HoldsOnly P s.orchestrator)
    (hanswer : ∀ x ∈ issued, ∀ emitted token, bundler x.2 = .ok emitted →
      emitted.cache = some token → P token) :
    HoldsOnly P (settleAll bundler s issued).orchestrator := by
  induction issued generalizing s with
  | nil => exact h
  | cons x rest ih =>
    have hrest := fun x' hx' => hanswer x' (List.mem_cons_of_mem x hx')
    rw [Orchestrator.settleAll, List.foldl_cons, ← Orchestrator.settleAll]
    refine ih ?_ hrest
    cases hx : bundler x.2 with
    | error e => exact h
    | ok emitted =>
      exact h.keepToken x.1.key fun token htoken =>
        hanswer x List.mem_cons_self emitted token hx htoken

/-- **A run leaves tokens that were held or came with its answers.** -/
theorem HoldsOnly.bundle (h : HoldsOnly P o)
    (hanswer : ∀ x ∈ o.issued p, ∀ emitted token, bundler x.2 = .ok emitted →
      emitted.cache = some token → P token) :
    HoldsOnly P (o.bundle bundler p).2.orchestrator :=
  HoldsOnly.settleAll h.prune.requestAll hanswer

/-- The tokens that go into the requests of a run were held. -/
theorem HoldsOnly.of_cache_issued (h : HoldsOnly P o) {x : Bucket × Request τ}
    (hx : x ∈ o.issued p) {token : τ} (htoken : x.2.cache = some token) : P token :=
  h.prune.of_cache_requestAll hx htoken

end Orchestrator

end PackageRouting
