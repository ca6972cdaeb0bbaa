/-
PackageRouting/Proofs/Discovery.lean

Discovery on a registry that was filled before.

A recorded fingerprint vouches for a manifest text that came, at this place, to
the registered package and left no pattern out (`Stamped`).  Every step of
discovery keeps this (`stamped_take`), so that a manifest whose fingerprint is
the recorded one would come to what is registered if it were read again.

What a step does to a place, to the report and to the other places is said once
(`take_cases`); the lemmas about a whole pass follow by induction on the
manifests.  `packageAt? m k` is what a pass over `m` leaves at `k`, in terms of
the last manifest there alone.

Main results: `get?_discover`, `forall₂_toList_discover`.
-/
import Mathlib.Data.Set.Function
import PackageRouting.Discovery
import PackageRouting.Proofs.Package
import PackageRouting.Proofs.Registry

namespace PackageRouting

open Std

/-! ### Manifests -/

/-- The fingerprints tell the texts of a set apart. -/
def FingerprintsSeparate (texts : Set String) : Prop :=
  Set.InjOn (fun text => Digest.fingerprint text.toUTF8.toList) texts

theorem fingerprintsSeparate_pair {a b : String}
    (h : Digest.fingerprint a.toUTF8.toList ≠ Digest.fingerprint b.toUTF8.toList) :
    FingerprintsSeparate {a, b} := by
  rintro x (rfl | rfl) y (rfl | rfl) hxy
  · rfl
  · exact absurd hxy h
  · exact absurd hxy.symm h
  · rfl

namespace ManifestSource

variable {s : ManifestSource}

/-- Whether the text is that of a manifest. -/
def parses (s : ManifestSource) : Bool := (Manifest.parse s.path s.text).isOk

/-- The package that the text comes to, if it comes to one. -/
def package? (s : ManifestSource) : Option Package := s.resolve.toOption.map (·.1)

/-- What is reported about a manifest that is read. -/
def failures (s : ManifestSource) : List ManifestFailure :=
  match s.resolve with
  | .error e => [.ofError e]
  | .ok (_, errors) => errors.map (.ofPattern s.path)

/-- The fingerprint is that of the text, wherever it stands. -/
theorem fingerprint_at (s : ManifestSource) (k : Path) :
    (⟨k, s.text⟩ : ManifestSource).fingerprint = s.fingerprint := by
  rw [fingerprint, fingerprint]

theorem isOk_resolve (s : ManifestSource) : s.resolve.isOk = s.parses := by
  rw [resolve, parses]
  cases Manifest.parse s.path s.text <;> rfl

/-- One text at two spellings of a path is one manifest, or none. -/
theorem parse_congr {path path' : Path} {text : String} {m : Manifest}
    (h : Manifest.parse path text = .ok m) : Manifest.parse path' text = .ok m := by
  unfold Manifest.parse at h ⊢
  split at h
  · cases h
  · next value _ =>
    split at h
    · cases h
      rfl
    · cases h

/-- One text comes to the same package under every spelling of its path. -/
theorem resolve_at {k : Path} (hk : s.path ≈ k) {p : Package} {errors : List PatternShapeError}
    (h : s.resolve = .ok (p, errors)) :
    ∃ q, (⟨k, s.text⟩ : ManifestSource).resolve = .ok (q, errors) ∧ p.Same q := by
  cases hparse : Manifest.parse s.path s.text with
  | error e =>
    rw [resolve, hparse] at h
    cases h
  | ok m =>
    have hp : Package.ofManifest m s.path = (p, errors) := by
      rw [resolve, hparse] at h
      exact Except.ok.inj h
    obtain ⟨hsame, herrors⟩ := Package.ofManifest_congr hk m
    rw [hp] at hsame herrors
    refine ⟨(Package.ofManifest m k).1, ?_, hsame⟩
    rw [resolve, parse_congr hparse]
    show Except.ok (Package.ofManifest m k) = _
    rw [show errors = (Package.ofManifest m k).2 from herrors]

/-- What is left at a place by manifests that are taken one after another. -/
def packageAt (old : Option Package) : List ManifestSource → Path → Option Package
  | [], _ => old
  | s :: rest, k => packageAt (if k ≈ s.path then s.package? else old) rest k

/-- What a pass leaves at a place: what the last manifest there comes to. -/
abbrev packageAt? (l : List ManifestSource) (k : Path) : Option Package := packageAt none l k

theorem packageAt_congr {old old' : Option Package} (h : Package.SameAt old old')
    (l : List ManifestSource) (k : Path) :
    Package.SameAt (packageAt old l k) (packageAt old' l k) := by
  induction l generalizing old old' with
  | nil => exact h
  | cons s rest ih =>
    apply ih
    split
    · exact Package.sameAt_refl _
    · exact h

/-- Where there is a manifest, it does not matter what was there. -/
theorem packageAt_of_mem {l : List ManifestSource} {k : Path} (h : ∃ s ∈ l, k ≈ s.path)
    (old : Option Package) : packageAt old l k = packageAt? l k := by
  induction l generalizing old with
  | nil => simp at h
  | cons s rest ih =>
    rw [packageAt?, packageAt, packageAt]
    by_cases hrest : ∃ s ∈ rest, k ≈ s.path
    · rw [ih hrest, ih hrest (if k ≈ s.path then _ else _)]
    · have hs : k ≈ s.path := by
        obtain ⟨s', hmem, hs'⟩ := h
        rcases List.mem_cons.1 hmem with rfl | hmem
        · exact hs'
        · exact absurd ⟨s', hmem, hs'⟩ hrest
      rw [if_pos hs, if_pos hs]

theorem packageAt_of_notMem {l : List ManifestSource} {k : Path} (h : ¬ ∃ s ∈ l, k ≈ s.path)
    (old : Option Package) : packageAt old l k = old := by
  induction l generalizing old with
  | nil => rfl
  | cons s rest ih =>
    have hs : ¬ k ≈ s.path := fun hs => h ⟨s, List.mem_cons_self, hs⟩
    have hrest : ¬ ∃ s ∈ rest, k ≈ s.path := by
      rintro ⟨s', hmem, hs'⟩
      exact h ⟨s', List.mem_cons_of_mem _ hmem, hs'⟩
    rw [packageAt, ih hrest, if_neg hs]

end ManifestSource

namespace Registry

open ManifestSource

variable {texts : Set String} {r : Registry} {report : DiscoveryReport} {s : ManifestSource}

/-! ### One manifest -/

/-- What taking a manifest does while discovery is open: nothing if the fingerprint is the recorded
one, and otherwise the text decides. -/
theorem take_cases (hopen : r.phase = .discovering) (report : DiscoveryReport)
    (s : ManifestSource) :
    (∃ entry, r.packages.find? s.path = some entry ∧ entry.fingerprint = some s.fingerprint ∧
      r.take report s = (r, { report with unchanged := report.unchanged + 1 })) ∨
    (∃ e, s.resolve = .error e ∧
      r.take report s = ({ r with packages := r.packages.erase s.path },
        { report with failures := report.failures ++ [.ofError e] })) ∨
    (∃ p errors, s.resolve = .ok (p, errors) ∧
      r.take report s =
        ({ r with
            packages := r.packages.insert s.path
              ⟨p, if errors.isEmpty then some s.fingerprint else none⟩ },
          { report with
            resolved := report.resolved + 1
            failures := report.failures ++ errors.map (.ofPattern s.path) })) := by
  by_cases hstamp : r.fingerprint? s.path = some s.fingerprint
  · obtain ⟨entry, hentry, hfp⟩ := Option.bind_eq_some_iff.1 hstamp
    refine .inl ⟨entry, hentry, hfp, ?_⟩
    rw [take, if_pos hstamp]
  · cases hres : s.resolve with
    | error e =>
      refine .inr (.inl ⟨e, rfl, ?_⟩)
      rw [take, if_neg hstamp, hres]
      simp only [remove_of_discovering hopen]
      rfl
    | ok result =>
      obtain ⟨p, errors⟩ := result
      refine .inr (.inr ⟨p, errors, rfl, ?_⟩)
      rw [take, if_neg hstamp, hres]
      simp only [register_of_discovering hopen]

/-- A fingerprint is recorded for a manifest text, at the place itself, that comes to what is
registered there. -/
def Stamped (texts : Set String) (r : Registry) : Prop :=
  ∀ k entry, r.packages.find? k = some entry → entry.fingerprint.isSome →
    ∃ text ∈ texts, entry.fingerprint = some (⟨k, text⟩ : ManifestSource).fingerprint ∧
      ∃ p, (⟨k, text⟩ : ManifestSource).resolve = .ok (p, []) ∧ entry.package.Same p

theorem stamped_empty (texts : Set String) : Stamped texts {} := by
  intro k entry hentry
  cases hentry

/-- A manifest whose fingerprint is the recorded one would come to what is registered. -/
theorem Stamped.resolve_eq (h : r.Stamped texts) (hsep : FingerprintsSeparate texts)
    (hs : s.text ∈ texts) {entry : Registered} (hentry : r.packages.find? s.path = some entry)
    (hfp : entry.fingerprint = some s.fingerprint) :
    ∃ p, s.resolve = .ok (p, []) ∧ entry.package.Same p := by
  obtain ⟨text, htext, hstamp, p, hp, hsame⟩ := h s.path entry hentry (by simp [hfp])
  have hsame_text : text = s.text :=
    hsep htext hs (Option.some.inj (hstamp.symm.trans hfp))
  rw [hsame_text] at hp
  exact ⟨p, hp, hsame⟩

theorem phase_take (hopen : r.phase = .discovering) :
    (r.take report s).1.phase = .discovering := by
  obtain ⟨_, _, _, h⟩ | ⟨_, _, h⟩ | ⟨_, _, _, h⟩ := take_cases hopen report s
  all_goals
    rw [h]
    exact hopen

theorem stamped_take (hopen : r.phase = .discovering) (h : r.Stamped texts)
    (hs : s.text ∈ texts) : (r.take report s).1.Stamped texts := by
  obtain ⟨_, _, _, heq⟩ | ⟨_, _, heq⟩ | ⟨p, errors, hres, heq⟩ := take_cases hopen report s
  · rw [heq]
    exact h
  · rw [heq]
    intro k entry hentry
    rw [SortedMap.find?_erase] at hentry
    split at hentry
    · cases hentry
    · exact h k entry hentry
  · rw [heq]
    intro k entry hentry hsome
    rw [SortedMap.find?_insert] at hentry
    split at hentry
    · next hk =>
      obtain rfl := Option.some.inj hentry
      -- a stamp is recorded only if no pattern was left out
      have herrors : errors = [] := by
        cases errors with
        | nil => rfl
        | cons e rest => simp at hsome
      subst herrors
      have hpath : s.path ≈ k := Path.equiv_symm (Path.compare_eq_iff.1 hk)
      obtain ⟨q, hq, hsame⟩ := resolve_at hpath hres
      refine ⟨s.text, hs, ?_, q, hq, hsame⟩
      rw [fingerprint_at s k]
      simp only [List.isEmpty_nil, if_true]
    · exact h k entry hentry hsome

/-- **A manifest decides what is registered in its place**, whether it is read or not. -/
theorem get?_take (hopen : r.phase = .discovering) (h : r.Stamped texts)
    (hsep : FingerprintsSeparate texts) (hs : s.text ∈ texts) (k : Path) :
    Package.SameAt ((r.take report s).1.get? k)
      (if k ≈ s.path then s.package? else r.get? k) := by
  obtain ⟨entry, hentry, hfp, heq⟩ | ⟨_, hres, heq⟩ | ⟨p, errors, hres, heq⟩ :=
    take_cases hopen report s
  · -- the manifest is not read, but the fingerprint vouches for what is registered
    rw [heq]
    by_cases hk : k ≈ s.path
    · obtain ⟨p, hp, hsame⟩ := h.resolve_eq hsep hs hentry hfp
      have hget : r.get? k = some entry.package := by
        rw [get?, r.packages.find?_congr (Path.compare_eq_iff.2 hk), hentry]
        rfl
      rw [if_pos hk, package?, hp, hget]
      exact .some hsame
    · rw [if_neg hk]
      exact Package.sameAt_refl _
  · rw [heq, get?, SortedMap.find?_erase]
    simp only [Path.compare_eq_iff]
    split
    · rw [package?, hres]
      exact .none
    · exact Package.sameAt_refl _
  · rw [heq, get?, SortedMap.find?_insert]
    simp only [Path.compare_eq_iff]
    split
    · rw [package?, hres]
      exact Package.sameAt_refl _
    · exact Package.sameAt_refl _

/-- A manifest does not touch the other places. -/
theorem filter_keys_take (hopen : r.phase = .discovering) {keep : Path → Bool}
    (h : ∀ k, s.path ≈ k → keep k = false) :
    (r.take report s).1.packages.keys.filter keep = r.packages.keys.filter keep := by
  have hkeep : ∀ k, compare s.path k = .eq → keep k = false := fun k hk =>
    h k (Path.compare_eq_iff.1 hk)
  obtain ⟨_, _, _, heq⟩ | ⟨_, _, heq⟩ | ⟨_, _, _, heq⟩ := take_cases hopen report s
  · rw [heq]
  · rw [heq]
    exact SortedMap.filter_keys_erase r.packages hkeep
  · rw [heq]
    exact SortedMap.filter_keys_insert r.packages _ hkeep

/-- **A manifest that is not read has nothing to report**, so the failures are those of reading. -/
theorem failures_take (hopen : r.phase = .discovering) (h : r.Stamped texts)
    (hsep : FingerprintsSeparate texts) (hs : s.text ∈ texts) :
    (r.take report s).2.failures = report.failures ++ s.failures := by
  obtain ⟨entry, hentry, hfp, heq⟩ | ⟨e, hres, heq⟩ | ⟨p, errors, hres, heq⟩ :=
    take_cases hopen report s
  · obtain ⟨p, hp, -⟩ := h.resolve_eq hsep hs hentry hfp
    rw [heq, ManifestSource.failures, hp]
    exact (List.append_nil _).symm
  · rw [heq, ManifestSource.failures, hres]
  · rw [heq, ManifestSource.failures, hres]

theorem count_take (hopen : r.phase = .discovering) (h : r.Stamped texts)
    (hsep : FingerprintsSeparate texts) (hs : s.text ∈ texts) :
    (r.take report s).2.resolved + (r.take report s).2.unchanged =
      report.resolved + report.unchanged + if s.parses then 1 else 0 := by
  obtain ⟨entry, hentry, hfp, heq⟩ | ⟨e, hres, heq⟩ | ⟨p, errors, hres, heq⟩ :=
    take_cases hopen report s
  · obtain ⟨p, hp, -⟩ := h.resolve_eq hsep hs hentry hfp
    have hparses : s.parses = true := by rw [← isOk_resolve, hp]; rfl
    rw [heq, if_pos hparses]
    show report.resolved + (report.unchanged + 1) = _
    omega
  · have hparses : s.parses = false := by rw [← isOk_resolve, hres]; rfl
    rw [heq, if_neg (by simp [hparses])]
    rfl
  · have hparses : s.parses = true := by rw [← isOk_resolve, hres]; rfl
    rw [heq, if_pos hparses]
    show report.resolved + 1 + report.unchanged = _
    omega

/-! ### The manifests of a pass -/

variable {l : List ManifestSource}

theorem takeAll_cons (r : Registry) (report : DiscoveryReport) (s : ManifestSource)
    (l : List ManifestSource) :
    r.takeAll report (s :: l) = (r.take report s).1.takeAll (r.take report s).2 l := rfl

theorem phase_takeAll (hopen : r.phase = .discovering) :
    (r.takeAll report l).1.phase = .discovering := by
  induction l generalizing r report with
  | nil => exact hopen
  | cons s rest ih => exact ih (phase_take hopen)

theorem stamped_takeAll (hopen : r.phase = .discovering) (h : r.Stamped texts)
    (hl : ∀ s ∈ l, s.text ∈ texts) : (r.takeAll report l).1.Stamped texts := by
  induction l generalizing r report with
  | nil => exact h
  | cons s rest ih =>
    obtain ⟨hs, hrest⟩ := List.forall_mem_cons.1 hl
    exact ih (phase_take hopen) (stamped_take hopen h hs) hrest

theorem filter_keys_takeAll (hopen : r.phase = .discovering) {keep : Path → Bool}
    (h : ∀ s ∈ l, ∀ k, s.path ≈ k → keep k = false) :
    (r.takeAll report l).1.packages.keys.filter keep = r.packages.keys.filter keep := by
  induction l generalizing r report with
  | nil => rfl
  | cons s rest ih =>
    rw [takeAll_cons, ih (phase_take hopen) fun s' hs' => h s' (List.mem_cons_of_mem _ hs'),
      filter_keys_take hopen (h s List.mem_cons_self)]

/-- **After a pass a place holds what its last manifest comes to**; the other places hold what
they held. -/
theorem get?_takeAll (hopen : r.phase = .discovering) (h : r.Stamped texts)
    (hsep : FingerprintsSeparate texts) (hl : ∀ s ∈ l, s.text ∈ texts) (k : Path) :
    Package.SameAt ((r.takeAll report l).1.get? k) (packageAt (r.get? k) l k) := by
  induction l generalizing r report with
  | nil => exact Package.sameAt_refl _
  | cons s rest ih =>
    obtain ⟨hs, hrest⟩ := List.forall_mem_cons.1 hl
    exact (ih (phase_take hopen) (stamped_take hopen h hs) hrest).trans
      (packageAt_congr (get?_take hopen h hsep hs k) rest k)

theorem failures_takeAll (hopen : r.phase = .discovering) (h : r.Stamped texts)
    (hsep : FingerprintsSeparate texts) (hl : ∀ s ∈ l, s.text ∈ texts) :
    (r.takeAll report l).2.failures = report.failures ++ l.flatMap ManifestSource.failures := by
  induction l generalizing r report with
  | nil => exact (List.append_nil _).symm
  | cons s rest ih =>
    obtain ⟨hs, hrest⟩ := List.forall_mem_cons.1 hl
    rw [takeAll_cons, ih (phase_take hopen) (stamped_take hopen h hs) hrest,
      failures_take hopen h hsep hs, List.append_assoc, List.flatMap_cons]

theorem count_takeAll (hopen : r.phase = .discovering) (h : r.Stamped texts)
    (hsep : FingerprintsSeparate texts) (hl : ∀ s ∈ l, s.text ∈ texts) :
    (r.takeAll report l).2.resolved + (r.takeAll report l).2.unchanged =
      report.resolved + report.unchanged + l.countP ManifestSource.parses := by
  induction l generalizing r report with
  | nil => rfl
  | cons s rest ih =>
    obtain ⟨hs, hrest⟩ := List.forall_mem_cons.1 hl
    rw [takeAll_cons, ih (phase_take hopen) (stamped_take hopen h hs) hrest,
      count_take hopen h hsep hs, List.countP_cons]
    omega

/-! ### A whole pass -/

variable {m : List ManifestSource}

/-- The registry and the report when all manifests of a pass are taken. -/
abbrev taken (r : Registry) (m : List ManifestSource) : Registry × DiscoveryReport :=
  r.beginDiscovery.takeAll {} m

theorem phase_taken (r : Registry) (m : List ManifestSource) :
    (r.taken m).1.phase = .discovering :=
  phase_takeAll rfl

/-- The places of a pass, as the set that is kept. -/
abbrev present (m : List ManifestSource) : SortedSet Path := .ofList (m.map (·.path))

theorem contains_present {k : Path} : (present m).contains k ↔ ∃ s ∈ m, k ≈ s.path := by
  rw [SortedSet.contains_ofList]
  simp only [List.mem_map, exists_exists_and_eq_and, Path.compare_eq_iff]

/-- **Dropping the places that are gone is never refused.** -/
theorem dropGone_taken (r : Registry) (m : List ManifestSource) :
    (r.taken m).1.dropGone (r.taken m).2 (m.map (·.path)) =
      ({ (r.taken m).1 with
          packages := ((r.taken m).1.stale (present m)).foldl SortedMap.erase
            (r.taken m).1.packages },
        { (r.taken m).2 with pruned := (r.taken m).1.stale (present m) }) := by
  rw [dropGone, retain_of_discovering (phase_taken r m)]

theorem packages_discover (r : Registry) (m : List ManifestSource) :
    (r.discover m).1.packages =
      ((r.taken m).1.stale (present m)).foldl SortedMap.erase (r.taken m).1.packages := by
  have h := congrArg (fun out => out.1.packages) (dropGone_taken r m)
  exact h

theorem report_discover (r : Registry) (m : List ManifestSource) :
    (r.discover m).2.1 =
      { (r.taken m).2 with pruned := (r.taken m).1.stale (present m) } := by
  have h := congrArg (fun out => out.2) (dropGone_taken r m)
  exact h

/-- **What is pruned are the places without a manifest**, as they stood before the pass. -/
theorem pruned_discover (r : Registry) (m : List ManifestSource) :
    (r.discover m).2.1.pruned = r.packages.keys.filter fun k => ∀ s ∈ m, ¬ k ≈ s.path := by
  -- taking the manifests does not touch a place that has none
  have hkeep : ∀ s ∈ m, ∀ k, s.path ≈ k → (!(present m).contains k) = false := by
    intro s hs k hk
    simp [contains_present.2 ⟨s, hs, Path.equiv_symm hk⟩]
  have hstale : (r.taken m).1.stale (present m) =
      r.packages.keys.filter fun k => !(present m).contains k :=
    filter_keys_takeAll (r := r.beginDiscovery) rfl hkeep
  rw [report_discover, hstale]
  apply List.filter_congr
  intro k _
  by_cases hk : ∃ s ∈ m, k ≈ s.path
  · rw [contains_present.2 hk]
    simpa using hk
  · have hfalse : (present m).contains k = false := by
      simpa using fun h => hk (contains_present.1 h)
    rw [hfalse]
    simpa using hk

theorem failures_discover (h : r.Stamped texts) (hsep : FingerprintsSeparate texts)
    (hm : ∀ s ∈ m, s.text ∈ texts) :
    (r.discover m).2.1.failures = m.flatMap ManifestSource.failures := by
  rw [report_discover]
  exact failures_takeAll (r := r.beginDiscovery) rfl h hsep hm

theorem count_discover (h : r.Stamped texts) (hsep : FingerprintsSeparate texts)
    (hm : ∀ s ∈ m, s.text ∈ texts) :
    (r.discover m).2.1.resolved + (r.discover m).2.1.unchanged =
      m.countP ManifestSource.parses := by
  have hcount : (r.taken m).2.resolved + (r.taken m).2.unchanged =
      0 + 0 + m.countP ManifestSource.parses :=
    count_takeAll (r := r.beginDiscovery) rfl h hsep hm
  rw [report_discover]
  simpa using hcount

/-- Discovery keeps what the fingerprints vouch for. -/
theorem stamped_discover (h : r.Stamped texts) (hm : ∀ s ∈ m, s.text ∈ texts) :
    (r.discover m).1.Stamped texts := by
  have htaken : (r.taken m).1.Stamped texts := stamped_takeAll (r := r.beginDiscovery) rfl h hm
  intro k entry hentry
  rw [packages_discover, find?_foldl_erase_stale] at hentry
  split at hentry
  · exact htaken k entry hentry
  · cases hentry

/-- **A pass leaves at every place what its last manifest there comes to**, whatever was
registered before. -/
theorem get?_discover (h : r.Stamped texts) (hsep : FingerprintsSeparate texts)
    (hm : ∀ s ∈ m, s.text ∈ texts) (k : Path) :
    Package.SameAt ((r.discover m).1.get? k) (packageAt? m k) := by
  rw [get?, packages_discover, find?_foldl_erase_stale]
  by_cases hk : ∃ s ∈ m, k ≈ s.path
  -- a place with a manifest is kept, and one without loses what it held
  · have htaken : Package.SameAt ((r.taken m).1.get? k) (packageAt (r.get? k) m k) :=
      get?_takeAll (r := r.beginDiscovery) rfl h hsep hm k
    rw [packageAt_of_mem hk] at htaken
    rw [if_pos (contains_present.2 hk)]
    exact htaken
  · rw [if_neg fun hcontains => hk (contains_present.1 hcontains), packageAt?,
      packageAt_of_notMem hk]
    exact .none

/-- **After a pass two registries hold the same packages at the same places**, whatever they held
before. -/
theorem forall₂_toList_discover {r' : Registry} (h : r.Stamped texts) (h' : r'.Stamped texts)
    (hsep : FingerprintsSeparate texts) (hm : ∀ s ∈ m, s.text ∈ texts) :
    List.Forall₂ (fun e e' => e.1 ≈ e'.1 ∧ e.2.Same e'.2) (r.discover m).1.toList
      (r'.discover m).1.toList := by
  have hget : ∀ k, Package.SameAt ((r.discover m).1.get? k) ((r'.discover m).1.get? k) := by
    intro k
    exact (get?_discover h hsep hm k).trans (get?_discover h' hsep hm k).symm
  have hfind : ∀ k, Option.Rel (fun e e' : Registered => e.package.Same e'.package)
      ((r.discover m).1.packages.find? k) ((r'.discover m).1.packages.find? k) := by
    intro k
    have hk := hget k
    rw [get?, get?] at hk
    cases hl : (r.discover m).1.packages.find? k <;>
      cases hr : (r'.discover m).1.packages.find? k <;> rw [hl, hr] at hk <;> cases hk
    · exact .none
    · next hsame => exact .some hsame
  rw [toList, toList, List.forall₂_map_left_iff, List.forall₂_map_right_iff]
  refine (SortedMap.forall₂_entries hfind).imp ?_
  rintro e e' ⟨hkey, hsame⟩
  exact ⟨Path.compare_eq_iff.1 hkey, hsame⟩

end Registry

end PackageRouting
