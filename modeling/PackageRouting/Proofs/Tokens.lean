/-
PackageRouting/Proofs/Tokens.lean

The way of a token, from the answer it came with to the request it goes into.

A run drops the tokens of absent buckets, moves those of the buckets with inputs
into their requests, and keeps what comes back; what it leaves for a key is
therefore the token of the answer for that key, if there is one, and otherwise
what was held (`find?_bundle_of_mem`, `find?_bundle_of_notMem`).  Step by step
this says which token is held after any calls: the one that a call returned and
that nothing has undone since (`held_iff`).

Main result: `tokenProtocol` (when a request carries a token, and which one, and
that no token goes into two requests).
-/
import Mathlib.Data.List.Nodup
import PackageRouting.Proofs.History
import PackageRouting.Proofs.Orchestrator

namespace PackageRouting

open Std

namespace Orchestrator

variable {τ σ : Type} {o : Orchestrator τ} {bundler : Bundler τ} {options : Options}
  {p : Partition} {b : Bucket} {bs : List Bucket} {key : BucketKey} {token : τ}

/-! ### Requests bucket by bucket -/

/-- The keys of a partition's buckets. -/
def allKeys (p : Partition) : List BucketKey := p.buckets.map (·.key)

/-- The keys of the buckets that have inputs. -/
def inputKeys (bs : List Bucket) : List BucketKey := (bs.filter fun b => !b.isEmpty).map (·.key)

section Cons

variable {rest : List Bucket}

theorem inputKeys_of_isEmpty (hb : b.isEmpty) : inputKeys (b :: rest) = inputKeys rest := by
  rw [inputKeys, List.filter_cons, if_neg (by simp [hb]), inputKeys]

theorem inputKeys_of_not_isEmpty (hb : ¬ b.isEmpty) :
    inputKeys (b :: rest) = b.key :: inputKeys rest := by
  rw [inputKeys, List.filter_cons, if_pos (by simp [hb]), List.map_cons, inputKeys]

end Cons

theorem map_key_requestAll (o : Orchestrator τ) (options : Options) (bs : List Bucket) :
    (o.requestAll options bs).1.map (·.1.key) = inputKeys bs := by
  induction bs generalizing o with
  | nil => rfl
  | cons b rest ih =>
    by_cases hb : b.isEmpty
    · rw [requestAll_of_isEmpty hb, inputKeys_of_isEmpty hb, ih]
    · rw [requestAll_of_not_isEmpty hb, inputKeys_of_not_isEmpty hb, List.map_cons, ih]

/-- A request is for the key of its bucket. -/
theorem bucket_of_mem_requestAll {x : Bucket × Request τ}
    (hx : x ∈ (o.requestAll options bs).1) : x.2.bucket = x.1.key := by
  induction bs generalizing o with
  | nil => cases hx
  | cons b rest ih =>
    by_cases hb : b.isEmpty
    · rw [requestAll_of_isEmpty hb] at hx
      exact ih hx
    · rw [requestAll_of_not_isEmpty hb] at hx
      rcases List.mem_cons.1 hx with rfl | hx
      · rfl
      · exact ih hx

theorem map_key_issued (o : Orchestrator τ) (p : Partition) :
    (o.issued p).map (·.1.key) = inputKeys p.buckets := map_key_requestAll _ _ _

/-- Where the keys of a partition differ, those of its requests do. -/
theorem nodup_inputKeys (h : (allKeys p).Nodup) : (inputKeys p.buckets).Nodup :=
  h.sublist (List.filter_sublist.map _)

theorem mem_allKeys_of_mem_requests {r : Request τ} (hr : r ∈ o.requests p) :
    r.bucket ∈ allKeys p := by
  obtain ⟨x, hx, rfl⟩ := List.mem_map.1 hr
  rw [bucket_of_mem_requestAll hx]
  exact List.mem_map.2 ⟨x.1, (mem_buckets_of_mem_issued hx).1, rfl⟩

/-- There is one request for a key. -/
theorem requests_unique (h : (allKeys p).Nodup) {r r' : Request τ} (hr : r ∈ o.requests p)
    (hr' : r' ∈ o.requests p) (hkey : r.bucket = r'.bucket) : r = r' := by
  obtain ⟨x, hx, rfl⟩ := List.mem_map.1 hr
  obtain ⟨x', hx', rfl⟩ := List.mem_map.1 hr'
  rw [bucket_of_mem_requestAll hx, bucket_of_mem_requestAll hx'] at hkey
  have hnodup : ((o.issued p).map (·.1.key)).Nodup := by
    rw [map_key_issued]
    exact nodup_inputKeys h
  rw [List.inj_on_of_nodup_map hnodup hx hx' hkey]

/-! ### The mode -/

theorem incremental_congr {o' : Orchestrator τ} (h : o.withoutTokens = o'.withoutTokens) :
    o.incremental = o'.incremental := by
  show o.withoutTokens.incremental = o'.withoutTokens.incremental
  rw [h]

theorem incremental_request : (o.request options b).2.incremental = o.incremental :=
  incremental_congr withoutTokens_request

theorem incremental_requestAll : (o.requestAll options bs).2.incremental = o.incremental :=
  incremental_congr withoutTokens_requestAll

theorem incremental_settleAll (s : Settled τ) (issued : List (Bucket × Request τ)) :
    (settleAll bundler s issued).orchestrator.incremental = s.orchestrator.incremental :=
  incremental_congr (withoutTokens_settleAll s issued)

@[simp] theorem incremental_bundle :
    (o.bundle bundler p).2.orchestrator.incremental = o.incremental :=
  incremental_congr withoutTokens_bundle

/-! ### Where no tokens are threaded -/

section Off

variable (hoff : o.incremental = false)

include hoff

theorem requestAll_of_off : (o.requestAll options bs).2 = o := by
  induction bs with
  | nil => rfl
  | cons b rest ih =>
    have hrequest : (o.request options b).2 = o := if_neg (by simp [hoff])
    by_cases hb : b.isEmpty
    · rw [requestAll_of_isEmpty hb, ih]
    · rw [requestAll_of_not_isEmpty hb, hrequest, ih]

theorem keepToken_of_off (token : Option τ) : o.keepToken key token = o := by
  cases token with
  | none => rfl
  | some t => rw [keepToken, if_neg (by simp [hoff])]

theorem bundle_of_off : (o.bundle bundler p).2.orchestrator = o.prune p := by
  have hsettle : ∀ (issued : List (Bucket × Request τ)) (s : Settled τ),
      s.orchestrator = o.prune p → (settleAll bundler s issued).orchestrator = o.prune p := by
    intro issued
    induction issued with
    | nil => exact fun s hs => hs
    | cons x rest ih =>
      intro s hs
      rw [settleAll, List.foldl_cons, ← settleAll]
      apply ih
      rw [orchestrator_settle, hs]
      exact keepToken_of_off (o := o.prune p) hoff _
  rw [bundle_eq_settleAll]
  exact hsettle _ _ (requestAll_of_off (o := o.prune p) hoff)

end Off

/-! ### What a run does to the tokens -/

theorem find?_prune (o : Orchestrator τ) (p : Partition) (key : BucketKey) :
    (o.prune p).caches.find? key = if key ∈ allKeys p then o.caches.find? key else none := by
  have hmem : (p.buckets.any fun b => b.key == key) ↔ key ∈ allKeys p := by simp [allKeys]
  rw [prune, SortedMap.find?_filter_keys]
  simp only [hmem]

theorem find?_request (h : o.incremental) :
    (o.request options b).2.caches.find? key =
      if key = b.key then none else o.caches.find? key := by
  have hrequest : (o.request options b).2 = { o with caches := o.caches.erase b.key } := if_pos h
  rw [hrequest, SortedMap.find?_erase]
  simp only [Std.compare_eq_iff_eq]

theorem cache_request_of_on (h : o.incremental) :
    (o.request options b).1.cache = o.caches.find? b.key := if_pos h

/-- A request carries the token that was held for its key. -/
theorem cache_of_mem_requestAll (hon : o.incremental) (hnodup : (inputKeys bs).Nodup)
    {x : Bucket × Request τ} (hx : x ∈ (o.requestAll options bs).1) :
    x.2.cache = o.caches.find? x.1.key := by
  induction bs generalizing o with
  | nil => cases hx
  | cons b rest ih =>
    by_cases hb : b.isEmpty
    · rw [requestAll_of_isEmpty hb] at hx
      rw [inputKeys_of_isEmpty hb] at hnodup
      exact ih hon hnodup hx
    · rw [requestAll_of_not_isEmpty hb] at hx
      rw [inputKeys_of_not_isEmpty hb] at hnodup
      obtain ⟨hnew, hrest⟩ := List.nodup_cons.1 hnodup
      rcases List.mem_cons.1 hx with rfl | hx
      · exact cache_request_of_on hon
      · -- the request before took another key's token
        have hmem : x.1.key ∈ inputKeys rest := by
          rw [← map_key_requestAll (o.request options b).2 options rest]
          exact List.mem_map.2 ⟨x, hx, rfl⟩
        have hne : x.1.key ≠ b.key := ne_of_mem_of_not_mem hmem hnew
        rw [ih (incremental_request.trans hon) hrest hx, find?_request hon, if_neg hne]

theorem find?_requestAll (hon : o.incremental) : (o.requestAll options bs).2.caches.find? key =
    if key ∈ inputKeys bs then none else o.caches.find? key := by
  induction bs generalizing o with
  | nil => rfl
  | cons b rest ih =>
    by_cases hb : b.isEmpty
    · rw [requestAll_of_isEmpty hb, inputKeys_of_isEmpty hb, ih hon]
    · rw [requestAll_of_not_isEmpty hb, inputKeys_of_not_isEmpty hb,
        ih (incremental_request.trans hon), find?_request hon]
      by_cases hkey : key = b.key <;> simp [hkey]

theorem find?_keepToken_of_ne {key' : BucketKey} (h : key ≠ key') (token : Option τ) :
    (o.keepToken key' token).caches.find? key = o.caches.find? key := by
  unfold keepToken
  split
  · split
    · rw [SortedMap.find?_insert, if_neg (by simpa using h)]
    · rfl
  · rfl

theorem find?_keepToken (hon : o.incremental) (hnone : o.caches.find? key = none)
    (token : Option τ) : (o.keepToken key token).caches.find? key = token := by
  cases token with
  | none => exact hnone
  | some t => rw [keepToken, if_pos hon, SortedMap.find?_insert, if_pos ReflOrd.compare_self]

theorem find?_settleAll_of_notMem {s : Settled τ} {issued : List (Bucket × Request τ)}
    (h : key ∉ issued.map (·.1.key)) :
    (settleAll bundler s issued).orchestrator.caches.find? key =
      s.orchestrator.caches.find? key := by
  induction issued generalizing s with
  | nil => rfl
  | cons x rest ih =>
    rw [List.map_cons, List.mem_cons, not_or] at h
    obtain ⟨hne, hrest⟩ := h
    rw [settleAll, List.foldl_cons, ← settleAll, ih hrest, orchestrator_settle,
      find?_keepToken_of_ne hne]

/-- Of several answers for different keys, one decides what is held for a key. -/
theorem find?_settleAll_of_mem {s : Settled τ} {issued : List (Bucket × Request τ)}
    (hon : s.orchestrator.incremental) (hnodup : (issued.map (·.1.key)).Nodup)
    {x : Bucket × Request τ} (hx : x ∈ issued)
    (hnone : s.orchestrator.caches.find? x.1.key = none) :
    (settleAll bundler s issued).orchestrator.caches.find? x.1.key = tokenOf (bundler x.2) := by
  obtain ⟨l, l', rfl⟩ := List.append_of_mem hx
  rw [List.map_append, List.map_cons, List.nodup_middle, List.nodup_cons, List.mem_append,
    not_or] at hnodup
  -- the answers before and behind it are for other keys
  obtain ⟨⟨hl, hl'⟩, -⟩ := hnodup
  rw [settleAll, List.foldl_append, List.foldl_cons, ← settleAll, ← settleAll,
    find?_settleAll_of_notMem hl', orchestrator_settle, find?_keepToken]
  · rwa [incremental_settleAll]
  · rwa [find?_settleAll_of_notMem hl]

/-- **A request carries the token that is held for its bucket.** -/
theorem cache_of_mem_requests (hnodup : (allKeys p).Nodup) (hon : o.incremental) {r : Request τ}
    (hr : r ∈ o.requests p) : r.cache = o.caches.find? r.bucket := by
  have hmem : r.bucket ∈ allKeys p := mem_allKeys_of_mem_requests hr
  obtain ⟨x, hx, rfl⟩ := List.mem_map.1 hr
  have hcache : x.2.cache = (o.prune p).caches.find? x.1.key :=
    cache_of_mem_requestAll (o := o.prune p) hon (nodup_inputKeys hnodup) hx
  rw [hcache, ← bucket_of_mem_requestAll hx, find?_prune, if_pos hmem]

/-- What is held after the requests of a run are made. -/
theorem find?_issued (hon : o.incremental) :
    ((o.prune p).requestAll options p.buckets).2.caches.find? key =
      if key ∈ inputKeys p.buckets then none else (o.prune p).caches.find? key :=
  find?_requestAll (o := o.prune p) hon

/-- **What is held after a run for a bucket that made a request is what its answer came with.** -/
theorem find?_bundle_of_mem (hnodup : (allKeys p).Nodup) (hon : o.incremental) {r : Request τ}
    (hr : r ∈ o.requests p) :
    (o.bundle bundler p).2.orchestrator.caches.find? r.bucket = tokenOf (bundler r) := by
  obtain ⟨x, hx, rfl⟩ := List.mem_map.1 hr
  have hkey : x.1.key ∈ inputKeys p.buckets := by
    rw [← map_key_issued o]
    exact List.mem_map.2 ⟨x, hx, rfl⟩
  rw [bundle_eq_settleAll, bucket_of_mem_requestAll hx]
  refine find?_settleAll_of_mem ?_ ?_ hx ?_
  · exact (incremental_requestAll (o := o.prune p)).trans hon
  · rw [map_key_issued]
    exact nodup_inputKeys hnodup
  · -- its token has moved into the request
    rw [find?_issued hon, if_pos hkey]

/-- **What is held after a run for another bucket was held before**, if the partition has it. -/
theorem find?_bundle_of_notMem (hon : o.incremental) (h : ∀ r ∈ o.requests p, r.bucket ≠ key) :
    (o.bundle bundler p).2.orchestrator.caches.find? key =
      if key ∈ allKeys p then o.caches.find? key else none := by
  have hkey : key ∉ inputKeys p.buckets := by
    rw [← map_key_issued o]
    intro hmem
    obtain ⟨x, hx, rfl⟩ := List.mem_map.1 hmem
    exact h x.2 (List.mem_map.2 ⟨x, hx, rfl⟩) (bucket_of_mem_requestAll hx)
  rw [bundle_eq_settleAll, find?_settleAll_of_notMem, find?_issued hon, if_neg hkey, find?_prune]
  rwa [map_key_issued]

end Orchestrator

/-! ### Sessions -/

open Orchestrator

/-- A call on an orchestrator.  A run has a bundler of its own, because a bundler may answer from
what it saw before; its sink works on a world. -/
inductive Session.Call (τ σ : Type) where
  | setIncremental (incremental : Bool)
  | run (bundler : Bundler τ) (sink : OutputFile → StateM σ (Except SinkError Unit))
      (p : Partition)

/-- Performs a call. -/
def Session.Call.step {τ σ : Type} : Orchestrator τ × σ → Session.Call τ σ → Orchestrator τ × σ
  | (o, world), .setIncremental incremental => (o.setIncremental incremental, world)
  | (o, world), .run bundler sink p =>
    let ((o, _), world) := (o.run bundler sink p).run world
    (o, world)

/-- Calls on one orchestrator, from a new one on. -/
structure Session (τ σ : Type) where
  outDir : Path
  overrides : Overrides
  world : σ
  calls : List (Session.Call τ σ)

namespace Session

variable {τ σ : Type} {s : Session τ σ} {i j k : Nat} {key : BucketKey} {token : τ}
  {r : Request τ}

/-- The orchestrator before the `i`-th call. -/
def before (s : Session τ σ) (i : Nat) : Orchestrator τ :=
  (History.stateAt Call.step ({ outDir := s.outDir, overrides := s.overrides }, s.world)
    s.calls i).1

/-- The `i`-th call makes a request. -/
def Issues (s : Session τ σ) (i : Nat) (r : Request τ) : Prop :=
  ∃ bundler sink p, s.calls[i]? = some (.run bundler sink p) ∧ r ∈ (s.before i).requests p

/-- The `i`-th call asks the bundler for a bucket, and a token comes back. -/
def Returns (s : Session τ σ) (i : Nat) (key : BucketKey) (token : τ) : Prop :=
  ∃ bundler sink p, s.calls[i]? = some (.run bundler sink p) ∧
    ∃ r ∈ (s.before i).requests p, r.bucket = key ∧
      ∃ emitted, bundler r = .ok emitted ∧ emitted.cache = some token

/-- The `k`-th call leaves the token of a bucket alone. -/
structure Keeps (s : Session τ σ) (key : BucketKey) (k : Nat) : Prop where
  /-- It makes no request for the bucket. -/
  unused : ∀ r, s.Issues k r → r.bucket ≠ key
  /-- It does not leave incremental mode. -/
  on : s.calls[k]? ≠ some (.setIncremental false)
  /-- If it is a run, then of a partition that has the bucket. -/
  present : ∀ bundler sink p, s.calls[k]? = some (.run bundler sink p) → key ∈ allKeys p

/-- The token that the `i`-th call returned for a bucket still stands before the `j`-th: it was
returned in incremental mode, and the calls in between left it alone. -/
structure Stands (s : Session τ σ) (i j : Nat) (key : BucketKey) (token : τ) : Prop where
  lt : i < j
  on : (s.before i).incremental
  returned : s.Returns i key token
  kept : ∀ k, i < k → k < j → s.Keeps key k

theorem exists_stands_iff : (∃ i, s.Stands i j key token) ↔
    History.Since (fun i => (s.before i).incremental ∧ s.Returns i key token) (s.Keeps key) j := by
  constructor
  · rintro ⟨i, hlt, hon, hreturned, hkept⟩
    exact ⟨i, hlt, ⟨hon, hreturned⟩, hkept⟩
  · rintro ⟨i, hlt, ⟨hon, hreturned⟩, hkept⟩
    exact ⟨i, hlt, hon, hreturned, hkept⟩

section Step

variable {bundler : Bundler τ} {sink : OutputFile → StateM σ (Except SinkError Unit)}
  {p : Partition}

theorem before_succ_of_run (h : s.calls[i]? = some (.run bundler sink p)) :
    s.before (i + 1) = ((s.before i).bundle bundler p).2.orchestrator := by
  rw [before, History.stateAt_succ h]
  rfl

theorem before_succ_of_setIncremental {incremental : Bool}
    (h : s.calls[i]? = some (.setIncremental incremental)) :
    s.before (i + 1) = (s.before i).setIncremental incremental := by
  rw [before, History.stateAt_succ h]
  rfl

theorem before_succ_of_none (h : s.calls[i]? = none) : s.before (i + 1) = s.before i := by
  rw [before, History.stateAt_succ_of_none h, before]

theorem issues_iff (h : s.calls[i]? = some (.run bundler sink p)) :
    s.Issues i r ↔ r ∈ (s.before i).requests p := by
  simp [Issues, h]

theorem returns_iff (h : s.calls[i]? = some (.run bundler sink p)) : s.Returns i key token ↔
    ∃ r ∈ (s.before i).requests p, r.bucket = key ∧ tokenOf (bundler r) = some token := by
  have hanswer : ∀ answer : Except BundlerError (Emitted τ),
      (∃ emitted, answer = .ok emitted ∧ emitted.cache = some token) ↔
        tokenOf answer = some token := by
    intro answer
    cases answer <;> simp [tokenOf]
  simp [Returns, h, hanswer]

theorem keeps_iff (h : s.calls[i]? = some (.run bundler sink p)) :
    s.Keeps key i ↔ (∀ r ∈ (s.before i).requests p, r.bucket ≠ key) ∧ key ∈ allKeys p := by
  constructor
  · intro hkeeps
    exact ⟨fun r hr => hkeeps.unused r ((issues_iff h).2 hr), hkeeps.present _ _ _ h⟩
  · rintro ⟨hunused, hpresent⟩
    refine ⟨fun r hr => hunused r ((issues_iff h).1 hr), by simp [h], fun bundler' sink' p' h' => ?_⟩
    cases h.symm.trans h'
    exact hpresent

end Step

section NoRun

variable (h : ∀ bundler sink p, s.calls[i]? ≠ some (.run bundler sink p))

include h

theorem not_returns_of_ne : ¬ s.Returns i key token := by
  rintro ⟨bundler, sink, p, hrun, -⟩
  exact h bundler sink p hrun

theorem keeps_iff_of_ne : s.Keeps key i ↔ s.calls[i]? ≠ some (.setIncremental false) := by
  constructor
  · exact fun hkeeps => hkeeps.on
  · intro hon
    refine ⟨fun r hr => ?_, hon, fun bundler sink p hrun => absurd hrun (h bundler sink p)⟩
    obtain ⟨bundler, sink, p, hrun, -⟩ := hr
    exact absurd hrun (h bundler sink p)

end NoRun

/-- The mode is what it was set to last. -/
theorem incremental_iff (s : Session τ σ) (i : Nat) : (s.before i).incremental ↔
    History.Since (s.calls[·]? = some (.setIncremental true))
      (s.calls[·]? ≠ some (.setIncremental false)) i := by
  refine History.iff_since (Q := fun i => (s.before i).incremental) Bool.false_ne_true
    (fun i => ?_) i
  cases h : s.calls[i]? with
  | none => simp [before_succ_of_none h]
  | some call =>
    cases call with
    | setIncremental incremental =>
      cases incremental <;> simp [before_succ_of_setIncremental h, setIncremental]
    | run bundler sink p => simp [before_succ_of_run h]

/-- **Where no tokens are threaded, none is held.** -/
theorem caches_of_off (s : Session τ σ) (i : Nat) :
    (s.before i).incremental = false → (s.before i).caches = .empty := by
  refine History.stateAt_of_step
    (P := fun x : Orchestrator τ × σ => x.1.incremental = false → x.1.caches = .empty) ?_ ?_ i
  · exact fun _ => rfl
  · rintro ⟨o, world⟩ h call - hoff
    cases call with
    | setIncremental incremental =>
      obtain rfl : incremental = false := hoff
      rfl
    | run bundler sink p =>
      replace hoff : (o.bundle bundler p).2.orchestrator.incremental = false := hoff
      rw [incremental_bundle] at hoff
      show (o.bundle bundler p).2.orchestrator.caches = .empty
      rw [bundle_of_off hoff, prune, h hoff]
      rfl

/-- The buckets of every partition have different keys. -/
def Distinct (s : Session τ σ) : Prop :=
  ∀ bundler sink p, .run bundler sink p ∈ s.calls → (allKeys p).Nodup

theorem Distinct.nodup (hdistinct : s.Distinct) {bundler : Bundler τ}
    {sink : OutputFile → StateM σ (Except SinkError Unit)} {p : Partition}
    (h : s.calls[i]? = some (.run bundler sink p)) : (allKeys p).Nodup :=
  hdistinct bundler sink p (List.mem_of_getElem? h)

/-- What a run leaves, in terms of what it returned and what it left alone. -/
theorem find?_bundle_iff (hdistinct : s.Distinct) {bundler : Bundler τ}
    {sink : OutputFile → StateM σ (Except SinkError Unit)} {p : Partition}
    (h : s.calls[i]? = some (.run bundler sink p)) (hon : (s.before i).incremental) :
    ((s.before i).bundle bundler p).2.orchestrator.caches.find? key = some token ↔
      s.Returns i key token ∨ s.Keeps key i ∧ (s.before i).caches.find? key = some token := by
  rw [returns_iff h, keeps_iff h]
  by_cases hused : ∃ r ∈ (s.before i).requests p, r.bucket = key
  · obtain ⟨r, hr, rfl⟩ := hused
    rw [find?_bundle_of_mem (hdistinct.nodup h) hon hr]
    constructor
    · intro htoken
      exact .inl ⟨r, hr, rfl, htoken⟩
    · rintro (⟨r', hr', hkey, htoken⟩ | ⟨⟨hunused, -⟩, -⟩)
      · rwa [← requests_unique (hdistinct.nodup h) hr' hr hkey]
      · exact absurd rfl (hunused r hr)
  · have hunused : ∀ r ∈ (s.before i).requests p, r.bucket ≠ key :=
      fun r hr hkey => hused ⟨r, hr, hkey⟩
    rw [find?_bundle_of_notMem hon hunused]
    constructor
    · intro hfind
      split at hfind
      · next hpresent => exact .inr ⟨⟨hunused, hpresent⟩, hfind⟩
      · cases hfind
    · rintro (⟨r, hr, hkey, -⟩ | ⟨⟨-, hpresent⟩, hfind⟩)
      · exact absurd hkey (hunused r hr)
      · rwa [if_pos hpresent]

/-- **A token is held after a call if it came with an answer, or was held and left alone.** -/
theorem find?_before_succ (hdistinct : s.Distinct) :
    (s.before (i + 1)).caches.find? key = some token ↔
      ((s.before i).incremental ∧ s.Returns i key token) ∨
        s.Keeps key i ∧ (s.before i).caches.find? key = some token := by
  cases h : s.calls[i]? with
  | none =>
    have hne : ∀ bundler sink p, s.calls[i]? ≠ some (.run bundler sink p) := by simp [h]
    simp [before_succ_of_none h, not_returns_of_ne hne, keeps_iff_of_ne hne, h]
  | some call =>
    cases call with
    | setIncremental incremental =>
      have hne : ∀ bundler sink p, s.calls[i]? ≠ some (.run bundler sink p) := by simp [h]
      cases incremental with
      | false =>
        have hempty : (s.before (i + 1)).caches = .empty := by
          rw [before_succ_of_setIncremental h]
          rfl
        simp [hempty, SortedMap.find?_empty, not_returns_of_ne hne, keeps_iff_of_ne hne, h]
      | true =>
        have hsame : (s.before (i + 1)).caches = (s.before i).caches := by
          rw [before_succ_of_setIncremental h]
          rfl
        simp [hsame, not_returns_of_ne hne, keeps_iff_of_ne hne, h]
    | run bundler sink p =>
      rw [before_succ_of_run h]
      by_cases hon : (s.before i).incremental
      · rw [find?_bundle_iff hdistinct h hon]
        simp [hon]
      · -- a run out of the mode has nothing to drop
        have hoff : (s.before i).incremental = false := by simpa using hon
        rw [bundle_of_off hoff, find?_prune, s.caches_of_off i hoff]
        simp [SortedMap.find?_empty, hon]

/-- **The tokens that are held are those that still stand.** -/
theorem held_iff (hdistinct : s.Distinct) :
    (s.before i).caches.find? key = some token ↔ ∃ k, s.Stands k i key token := by
  rw [exists_stands_iff]
  refine History.iff_since (Q := fun i => (s.before i).caches.find? key = some token) ?_
    (fun i => find?_before_succ hdistinct) i
  -- a new orchestrator holds nothing
  intro h
  cases h

/-- A call makes one request for a bucket. -/
theorem Issues.unique {r' : Request τ} (hdistinct : s.Distinct) (hr : s.Issues j r)
    (hr' : s.Issues j r') (hkey : r.bucket = r'.bucket) : r = r' := by
  obtain ⟨bundler, sink, p, h, hmem⟩ := hr
  rw [issues_iff h] at hr'
  exact requests_unique (hdistinct.nodup h) hmem hr' hkey

/-- **A request carries the token that still stands for its bucket.** -/
theorem Issues.cache_eq_some_iff (hdistinct : s.Distinct) (hr : s.Issues j r) :
    r.cache = some token ↔ (s.before j).incremental ∧ ∃ i, s.Stands i j r.bucket token := by
  obtain ⟨bundler, sink, p, h, hmem⟩ := hr
  rw [← held_iff hdistinct]
  by_cases hon : (s.before j).incremental
  · rw [cache_of_mem_requests (hdistinct.nodup h) hon hmem]
    simp [hon]
  · have hnone : r.cache ≠ some token := by
      obtain ⟨x, hx, rfl⟩ := List.mem_map.1 hmem
      have hempty : (s.before j).caches = .empty := s.caches_of_off j (by simpa using hon)
      have hholds : HoldsOnly (fun _ => False) (s.before j) := holdsOnly_of_caches_eq_empty hempty
      exact fun htoken => hholds.of_cache_issued hx htoken
    simp [hon, hnone]

/-- A token that went into a request stands no longer. -/
theorem Stands.not_lt (h : s.Stands i k r.bucket token) (hr : s.Issues j r) (hij : i < j) :
    ¬ j < k :=
  fun hjk => (h.kept j hij hjk).unused r hr rfl

/-- **What a call returned for a bucket goes into one request at most.** -/
theorem Stands.unique {j' : Nat} {r' : Request τ} {token' : τ} (hdistinct : s.Distinct)
    (hr : s.Issues j r) (hr' : s.Issues j' r') (hkey : r.bucket = r'.bucket)
    (h : s.Stands i j r.bucket token) (h' : s.Stands i j' r'.bucket token') :
    j = j' ∧ r = r' := by
  -- the request at the earlier time would have used the token up
  have hj : j = j' := by
    rcases Nat.lt_trichotomy j j' with hlt | heq | hlt
    · rw [← hkey] at h'
      exact absurd hlt (h'.not_lt hr h.lt)
    · exact heq
    · rw [hkey] at h
      exact absurd hlt (h.not_lt hr' h'.lt)
  subst hj
  exact ⟨rfl, hr.unique hdistinct hr' hkey⟩

/-- No two answers come with the same token. -/
def ToldApart (s : Session τ σ) : Prop :=
  ∀ i i' key key' token, s.Returns i key token → s.Returns i' key' token → i = i' ∧ key = key'

/-- How a session hands tokens over. -/
structure TokenProtocol (s : Session τ σ) : Prop where
  /-- In incremental mode a request carries the token that still stands for its bucket. -/
  carried_iff : ∀ j r token, s.Issues j r →
    (r.cache = some token ↔ (s.before j).incremental ∧ ∃ i, s.Stands i j r.bucket token)
  /-- What a call returned for a bucket goes into one request at most. -/
  once : ∀ i j j' r r' token token', s.Issues j r → s.Issues j' r' → r.bucket = r'.bucket →
    s.Stands i j r.bucket token → s.Stands i j' r'.bucket token' → j = j' ∧ r = r'
  /-- Tokens that can be told apart are not seen in two requests. -/
  notTwice : s.ToldApart → ∀ j j' r r' token, s.Issues j r → s.Issues j' r' →
    r.cache = some token → r'.cache = some token → j = j' ∧ r = r'
  /-- Such a token is not seen by another bucket than the one it was returned for. -/
  sameBucket : s.ToldApart → ∀ i j r key token, s.Issues j r → r.cache = some token →
    s.Returns i key token → i < j ∧ r.bucket = key
  /-- The mode is what it was set to last. -/
  mode_iff : ∀ i, (s.before i).incremental ↔
    History.Since (s.calls[·]? = some (.setIncremental true))
      (s.calls[·]? ≠ some (.setIncremental false)) i
  /-- The tokens that are held are those that still stand. -/
  held_iff : ∀ i key token,
    (s.before i).caches.find? key = some token ↔ ∃ k, s.Stands k i key token
  /-- Out of incremental mode no token is held. -/
  off : ∀ i, (s.before i).incremental = false → (s.before i).caches = .empty

/-- **A token goes into the next request for the bucket it was returned for**, if none of the calls
in between drops it, and into no other. -/
theorem tokenProtocol (hdistinct : s.Distinct) : s.TokenProtocol where
  carried_iff j r token hr := hr.cache_eq_some_iff hdistinct
  once i j j' r r' token token' hr hr' hkey h h' := h.unique hdistinct hr hr' hkey h'
  notTwice hapart j j' r r' token hr hr' htoken htoken' := by
    obtain ⟨-, i, h⟩ := (hr.cache_eq_some_iff hdistinct).1 htoken
    obtain ⟨-, i', h'⟩ := (hr'.cache_eq_some_iff hdistinct).1 htoken'
    obtain ⟨rfl, hkey⟩ := hapart i i' _ _ token h.returned h'.returned
    exact h.unique hdistinct hr hr' hkey h'
  sameBucket hapart i j r key token hr htoken hreturned := by
    obtain ⟨-, i', h⟩ := (hr.cache_eq_some_iff hdistinct).1 htoken
    obtain ⟨rfl, hkey⟩ := hapart i' i _ _ token h.returned hreturned
    exact ⟨h.lt, hkey⟩
  mode_iff := s.incremental_iff
  held_iff i key token := Session.held_iff hdistinct
  off := s.caches_of_off

/-- A bucket of a package and the shared one, each with an input. -/
def twoBuckets : Partition where
  packages := [{ key := .package "ui", inputs := .ofList ["ui/a.js"] }]
  shared := { key := .shared, inputs := .ofList ["main.js"] }
  sourceMaps := false

/-- A bundler that counts its answers for a bucket, and fails for one bucket. -/
def counting (failing : Option BucketKey) : Bundler Nat := fun r =>
  if failing = some r.bucket then .error { message := "syntax error" }
  else .ok { cache := some (r.cache.getD 0 + 1) }

/-- Three runs in incremental mode; in the second the package fails. -/
def withFailure : Session Nat Unit where
  outDir := "site"
  overrides := {}
  world := ()
  calls := [.setIncremental true, .run (counting none) (accepting fun _ => pure ()) twoBuckets,
    .run (counting (some (.package "ui"))) (accepting fun _ => pure ()) twoBuckets,
    .run (counting none) (accepting fun _ => pure ()) twoBuckets]

/-- The package that failed begins anew, the other bucket goes on. -/
theorem tokenProtocol_withFailure : withFailure.TokenProtocol ∧
    ((withFailure.before 2).requests twoBuckets).map (·.cache) = [some 1, some 1] ∧
    ((withFailure.before 3).requests twoBuckets).map (·.cache) = [none, some 2] := by
  refine ⟨tokenProtocol ?_, ?_, ?_⟩
  · intro bundler sink p h
    obtain rfl : p = twoBuckets := by
      simp only [withFailure, List.mem_cons, List.not_mem_nil, or_false, reduceCtorEq, false_or,
        Call.run.injEq] at h
      rcases h with ⟨-, -, h⟩ | ⟨-, -, h⟩ | ⟨-, -, h⟩ <;> exact h
    decide
  · decide +kernel
  · decide +kernel

end Session

end PackageRouting
