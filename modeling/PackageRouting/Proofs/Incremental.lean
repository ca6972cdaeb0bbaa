/-
PackageRouting/Proofs/Incremental.lean

Passes that copy, on a pipeline in use.

Between passes the source files change, and the mode is switched on and off.
What a pipeline in use carries over are its packages, which discovery brings up
to date, and its tokens, which are genuine (`Reachable.coherent`): every text in
them was read in one of the states that the files have been in.  Neither shows
in what a pass writes.

Main result: `Reachable.pass_eq_clean` (a pass on a pipeline in use writes and
reports what the pass would on a new one that is not incremental).
-/
import PackageRouting.Proofs.Copying
import PackageRouting.Proofs.Pipeline

namespace PackageRouting

namespace Pipeline

open Passthrough (Cache Genuine)

variable {texts : Set String} {states : Set SourceFiles} {files : SourceFiles} {root : Path}
  {c : Config} {p : Pipeline Cache} {manifests : List ManifestSource} {sources : List SourceFile}

/-! ### Pipelines that copy -/

/-- The copying bundlers over the states that the files are in, one after another. -/
def copying (states : Set SourceFiles) (root : Path) : Set (Bundler Cache) :=
  (fun files => Passthrough.bundle files root) '' states

/-- The pipeline has the settings of its configuration, and its tokens are genuine. -/
structure Coherent (states : Set SourceFiles) (root : Path) (c : Config) (p : Pipeline Cache) :
    Prop where
  policy : p.policy = .ofTexts c.includePrivate c.exclude
  exportsDefault : p.config.exportsDefault = c.exportsDefault
  settings : p.orchestrator.settings = (c.outDir, c.overrides)
  tokens : p.orchestrator.HoldsOnly (Genuine states root)

theorem coherent_ofConfig : (ofConfig c : Pipeline Cache).Coherent states root c :=
  ⟨rfl, rfl, rfl, Orchestrator.holdsOnly_of_caches_eq_empty rfl⟩

/-- **The tokens do not show in the answers.** -/
theorem transparent_of_holdsOnly (hstamps : StampsSeparate states) (hfiles : files ∈ states)
    {o : Orchestrator Cache} (h : o.HoldsOnly (Genuine states root)) :
    Orchestrator.Transparent (Passthrough.bundle files root) o (p.plan sources) :=
  Orchestrator.transparent_of_current (h.imp fun _ hgenuine => hgenuine.current hstamps hfiles)

theorem Coherent.discover (h : p.Coherent states root c) :
    (p.discover manifests).1.Coherent states root c :=
  ⟨h.policy, h.exportsDefault, h.settings, h.tokens⟩

/-- A pass leaves genuine tokens. -/
theorem Coherent.afterPass (h : p.Coherent states root c) (hstamps : StampsSeparate states)
    (hfiles : files ∈ states) :
    (p.afterPass (Passthrough.bundle files root) manifests sources).Coherent states root c := by
  refine ⟨h.policy, h.exportsDefault, ?_, ?_⟩
  · exact Orchestrator.settings_bundle.trans h.settings
  · apply Orchestrator.HoldsOnly.bundle h.discover.tokens
    intro x hx emitted token hemitted htoken
    have hcache : ∀ token, x.2.cache = some token → Genuine states root token :=
      fun token htoken => h.discover.tokens.of_cache_issued hx htoken
    exact Passthrough.genuine_of_bundle hstamps hfiles hcache (Orchestrator.normal_of_mem_issued hx)
      hemitted htoken

theorem Coherent.setIncremental (h : p.Coherent states root c) (incremental : Bool) :
    (p.setIncremental incremental).Coherent states root c :=
  ⟨h.policy, h.exportsDefault, h.settings, h.tokens.setIncremental incremental⟩

/-- **A pipeline in use is coherent.** -/
theorem Reachable.coherent (h : Reachable texts (copying states root) c p)
    (hstamps : StampsSeparate states) : p.Coherent states root c := by
  induction h with
  | start => exact coherent_ofConfig
  | discover _ _ ih => exact ih.discover
  | @pass p σ bundler sink manifests sources state _ hbundler _ ih =>
    obtain ⟨files, hfiles, rfl⟩ := hbundler
    rw [pass_run]
    exact ih.afterPass hstamps hfiles
  | beforeSave _ ih => exact ⟨ih.policy, ih.exportsDefault, ih.settings, ih.tokens⟩
  | subscribe _ ih => exact ⟨ih.policy, ih.exportsDefault, ih.settings, ih.tokens⟩
  | @setIncremental p incremental _ ih => exact ih.setIncremental incremental

/-! ### Passes -/

/-- The sink, with a record of the files it is handed. -/
def logged {m : Type → Type} [Monad m] (sink : OutputFile → m (Except SinkError Unit))
    (file : OutputFile) : StateT (List OutputFile) m (Except SinkError Unit) := do
  modify (· ++ [file])
  sink file

theorem bundles_pass {m : Type → Type} [Monad m] [LawfulMonad m]
    (bundler : Bundler Cache) (sink : OutputFile → m (Except SinkError Unit)) (p : Pipeline Cache)
    (manifests : List ManifestSource) (sources : List SourceFile) :
    (·.2.1.bundles) <$> p.pass bundler sink manifests sources =
      (·.2) <$> (p.discover manifests).1.orchestrator.run bundler sink
        ((p.discover manifests).1.plan sources) := by
  simp only [pass, map_bind, map_pure]
  rw [← bind_pure_comp]

/-- **A pass on a pipeline in use writes and reports what it would on a new pipeline** that is not
incremental, whatever the passes before it were, how the files changed in between and when the mode
was switched, if fingerprints tell the texts of manifests apart and stamps the texts of files. -/
theorem Reachable.pass_eq_clean {m : Type → Type} [Monad m] [LawfulMonad m]
    (h : Reachable texts (copying states root) c p) (hsep : FingerprintsSeparate texts)
    (hstamps : StampsSeparate states) (hfiles : files ∈ states)
    (htexts : ∀ s ∈ manifests, s.text ∈ texts) (sources : List SourceFile)
    (sink : OutputFile → m (Except SinkError Unit)) :
    (·.2.1.bundles) <$>
        p.pass (Passthrough.bundle files root) (logged sink) manifests sources =
      (·.2.1.bundles) <$>
        (ofConfig { c with incremental := false }).pass (Passthrough.bundle files root)
          (logged sink) manifests sources := by
  have hcoherent := h.coherent hstamps
  have hnew : (ofConfig { c with incremental := false } : Pipeline Cache).Coherent states root
      { c with incremental := false } := coherent_ofConfig
  -- both pipelines plan the same buckets
  have hplan : ((ofConfig { c with incremental := false } : Pipeline Cache).discover
      manifests).1.plan sources = (p.discover manifests).1.plan sources := by
    rw [plan, plan, hcoherent.discover.policy, hcoherent.discover.exportsDefault]
    exact Partition.ofRegistry_congr
      (Registry.forall₂_toList_discover (Registry.stamped_empty texts) h.stamped hsep htexts) _ _ _
  rw [bundles_pass, bundles_pass, hplan]
  -- and the tokens of neither show in what it makes of them
  apply Orchestrator.report_run_congr
  · exact hcoherent.settings
  · exact transparent_of_holdsOnly hstamps hfiles hcoherent.discover.tokens
  · exact transparent_of_holdsOnly hstamps hfiles hnew.discover.tokens

/-- A disk with a single file. -/
def onlyFile (place : Path) (stamp : Stamp) (text : String) : SourceFiles where
  stamp q := if q = place then .ok stamp else .error .notFound
  text q := if q = place then .ok text else .error .notFound

theorem stampsSeparate_onlyFile {place : Path} {s s' : Stamp} {text text' : String}
    (h : s ≠ s') : StampsSeparate {onlyFile place s text, onlyFile place s' text'} := by
  have hstamp : ∀ {q : Path} {s₀ stamp : Stamp} {text₀ : String},
      (onlyFile place s₀ text₀).stamp q = .ok stamp → s₀ = stamp := by
    intro q s₀ stamp text₀ hq
    replace hq : (if q = place then .ok s₀ else .error .notFound : Except DiskError Stamp) =
      .ok stamp := hq
    split at hq
    · exact Except.ok.inj hq
    · cases hq
  rintro f (rfl | rfl) g (rfl | rfl) q stamp hf hg
  · rfl
  · exact absurd ((hstamp hf).trans (hstamp hg).symm) h
  · exact absurd ((hstamp hg).trans (hstamp hf).symm) h
  · rfl

/-- The only file of a package, with two texts of one length, one after the other. -/
def sampleStates : SourceFiles × SourceFiles :=
  (onlyFile "site/ui/index.js" ⟨1, 0⟩ "x", onlyFile "site/ui/index.js" ⟨1, 1⟩ "y")

def sampleManifests : List ManifestSource := [⟨"ui/package.json", sampleTexts.1⟩]

def sampleSources : List SourceFile := [⟨"ui/index.js", false⟩]

/-- A pipeline that holds a token for the first text. -/
def samplePipeline : Pipeline Cache :=
  (((ofConfig { incremental := true, exportsDefault := some .script }).pass
    (Passthrough.bundle sampleStates.1 "site") (fun _ => return .ok ())
    sampleManifests sampleSources : StateM Unit _).run ()).1.1

/-- The token for the first text does not show once the file has the second. -/
theorem pass_eq_clean_changed :
    FingerprintsSeparate {sampleTexts.1, sampleTexts.2} ∧
      StampsSeparate {sampleStates.1, sampleStates.2} ∧
      samplePipeline.orchestrator.hasCache (.package "ui") ∧
      ((samplePipeline.pass (Passthrough.bundle sampleStates.2 "site")
          (logged (m := Id) fun _ => pure (.ok ())) sampleManifests sampleSources).run []).2.map
        (·.contents) = [.text "\"use strict\";(function()\x7by\x7d)()\n"] ∧
      (·.2.1.bundles) <$>
          samplePipeline.pass (Passthrough.bundle sampleStates.2 "site")
            (logged (m := Id) fun _ => pure (.ok ())) sampleManifests sampleSources =
        (·.2.1.bundles) <$>
          (ofConfig { incremental := false, exportsDefault := some .script }).pass
            (Passthrough.bundle sampleStates.2 "site") (logged fun _ => pure (.ok ()))
            sampleManifests sampleSources := by
  have hstamps : StampsSeparate {sampleStates.1, sampleStates.2} :=
    stampsSeparate_onlyFile (by decide)
  have hreach : Reachable {sampleTexts.1, sampleTexts.2}
      (copying {sampleStates.1, sampleStates.2} "site")
      { incremental := true, exportsDefault := some .script } samplePipeline :=
    .pass .start ⟨sampleStates.1, .inl rfl, rfl⟩ (by simp [sampleManifests])
  exact ⟨fingerprintsSeparate_sampleTexts, hstamps, by decide +kernel, by decide +kernel,
    hreach.pass_eq_clean fingerprintsSeparate_sampleTexts hstamps (.inr rfl)
      (by simp [sampleManifests]) sampleSources _⟩

end Pipeline

end PackageRouting
