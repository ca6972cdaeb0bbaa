/-
PackageRouting/Proofs/Pipeline.lean

Pipelines in use: every state that passes, with discovery on its own, saves,
subscriptions and switches of the mode between them, can lead to.

A pass leaves the same pipeline whatever its sink makes of the files
(`pass_run`), so the states need not mention what was written.  The registry of
every reachable pipeline is stamped (`Reachable.stamped`).

Main result: `Reachable.discoversAfresh` (discovery on a pipeline in use comes to
what discovery on a new one comes to).
-/
import PackageRouting.Pipeline
import PackageRouting.Proofs.Discovery

namespace PackageRouting

namespace Pipeline

variable {τ σ : Type} {p : Pipeline τ} {bundler : Bundler τ} {texts : Set String}
  {bundlers : Set (Bundler τ)} {c : Config}

/-! ### The pipeline after a pass -/

/-- What a pass leaves behind. -/
def afterPass (p : Pipeline τ) (bundler : Bundler τ) (manifests : List ManifestSource)
    (files : List SourceFile) : Pipeline τ :=
  let discovered := (p.discover manifests).1
  { discovered with
    orchestrator :=
      (discovered.orchestrator.bundle bundler (discovered.plan files)).2.orchestrator }.beforeSave

/-- **The sink has no say in what a pass leaves behind.** -/
theorem pass_run (p : Pipeline τ) (bundler : Bundler τ)
    (sink : OutputFile → StateM σ (Except SinkError Unit)) (manifests : List ManifestSource)
    (files : List SourceFile) (state : σ) :
    ((p.pass bundler sink manifests files).run state).1.1 =
      p.afterPass bundler manifests files := rfl

/-! ### Reachable pipelines -/

/-- The pipelines of a configuration in use, where the manifests have their texts and the bundlers
are those of some set. -/
inductive Reachable (texts : Set String) (bundlers : Set (Bundler τ)) (c : Config) :
    Pipeline τ → Prop
  | start : Reachable texts bundlers c (ofConfig c)
  | discover {p : Pipeline τ} {manifests : List ManifestSource} (h : Reachable texts bundlers c p)
      (htexts : ∀ s ∈ manifests, s.text ∈ texts) :
      Reachable texts bundlers c (p.discover manifests).1
  | pass {p : Pipeline τ} {σ : Type} {bundler : Bundler τ}
      {sink : OutputFile → StateM σ (Except SinkError Unit)} {manifests : List ManifestSource}
      {files : List SourceFile} {state : σ} (h : Reachable texts bundlers c p)
      (hbundler : bundler ∈ bundlers) (htexts : ∀ s ∈ manifests, s.text ∈ texts) :
      Reachable texts bundlers c ((p.pass bundler sink manifests files).run state).1.1
  | beforeSave {p : Pipeline τ} (h : Reachable texts bundlers c p) :
      Reachable texts bundlers c p.beforeSave
  | subscribe {p : Pipeline τ} {policy : Policy} (h : Reachable texts bundlers c p) :
      Reachable texts bundlers c { p with registry := (p.registry.subscribe policy).1 }
  | setIncremental {p : Pipeline τ} {incremental : Bool} (h : Reachable texts bundlers c p) :
      Reachable texts bundlers c (p.setIncremental incremental)

theorem packages_subscribe (r : Registry) (policy : Policy) :
    (r.subscribe policy).1.packages = r.packages := by
  unfold Registry.subscribe
  split <;> rfl

/-- **The fingerprints of a pipeline in use vouch for what is registered.** -/
theorem Reachable.stamped (h : Reachable texts bundlers c p) : p.registry.Stamped texts := by
  induction h with
  | start => exact Registry.stamped_empty texts
  | discover _ htexts ih => exact Registry.stamped_discover ih htexts
  | pass _ _ htexts ih => exact Registry.stamped_discover ih htexts
  | beforeSave _ ih => exact ih
  | subscribe _ ih =>
    intro k entry hentry
    rw [packages_subscribe] at hentry
    exact ih k entry hentry
  | setIncremental _ ih => exact ih

/-! ### Discovery -/

/-- Discovery comes to what it comes to on a new pipeline, and nothing it asks of the registry is
refused. -/
structure DiscoversAfresh (p : Pipeline τ) (c : Config) (m : List ManifestSource) : Prop where
  /-- The same packages are registered at the same places. -/
  packages : List.Forall₂ (fun e e' => e.1 ≈ e'.1 ∧ e.2.Same e'.2)
    (p.discover m).1.registry.toList ((ofConfig c : Pipeline τ).discover m).1.registry.toList
  failures : (p.discover m).2.1.failures = ((ofConfig c : Pipeline τ).discover m).2.1.failures
  /-- A manifest that parses is either resolved or unchanged. -/
  count : (p.discover m).2.1.resolved + (p.discover m).2.1.unchanged =
    m.countP fun s => (Manifest.parse s.path s.text).isOk
  count_new : ((ofConfig c : Pipeline τ).discover m).2.1.resolved +
    ((ofConfig c : Pipeline τ).discover m).2.1.unchanged =
      m.countP fun s => (Manifest.parse s.path s.text).isOk
  /-- What is pruned was registered before and has no manifest now. -/
  pruned : (p.discover m).2.1.pruned =
    p.registry.packages.keys.filter fun k => ∀ s ∈ m, ¬ k ≈ s.path
  register_ok : ∀ before s after, m = before ++ s :: after → ∀ package stamp,
    ((p.registry.beginDiscovery.takeAll {} before).1.register s.path package stamp).isOk
  remove_ok : ∀ before s after, m = before ++ s :: after →
    ((p.registry.beginDiscovery.takeAll {} before).1.remove s.path).isOk
  retain_ok : ((p.registry.beginDiscovery.takeAll {} m).1.retain (.ofList (m.map (·.path)))).isOk

/-- **Discovery on a pipeline in use comes to what discovery on a new one comes to**, whatever
manifests the passes before it had, if fingerprints tell the texts of manifests apart. -/
theorem Reachable.discoversAfresh (h : Reachable texts bundlers c p)
    (hsep : FingerprintsSeparate texts) {m : List ManifestSource}
    (hm : ∀ s ∈ m, s.text ∈ texts) : p.DiscoversAfresh c m := by
  have hnew : ((ofConfig c : Pipeline τ).registry).Stamped texts := Registry.stamped_empty texts
  refine ⟨?_, ?_, ?_, ?_, ?_, ?_, ?_, ?_⟩
  · exact Registry.forall₂_toList_discover h.stamped hnew hsep hm
  · show (p.registry.discover m).2.1.failures = _
    rw [Registry.failures_discover h.stamped hsep hm]
    exact (Registry.failures_discover hnew hsep hm).symm
  · exact Registry.count_discover h.stamped hsep hm
  · exact Registry.count_discover hnew hsep hm
  · exact Registry.pruned_discover p.registry m
  · intro before s after _ package stamp
    rw [Registry.register_of_discovering (Registry.phase_taken p.registry before)]
    rfl
  · intro before s after _
    rw [Registry.remove_of_discovering (Registry.phase_taken p.registry before)]
    rfl
  · rw [Registry.retain_of_discovering (Registry.phase_taken p.registry m)]
    rfl

/-- A manifest's text, and a text that is none. -/
def sampleTexts : String × String := ("\x7b\"name\": \"ui\"\x7d", "\x7b")

theorem fingerprintsSeparate_sampleTexts :
    FingerprintsSeparate {sampleTexts.1, sampleTexts.2} :=
  fingerprintsSeparate_pair (by decide +kernel)

/-- A manifest that comes back under another spelling of its path, with a broken one beside it. -/
theorem discoversAfresh_respelled :
    FingerprintsSeparate {sampleTexts.1, sampleTexts.2} ∧
      ((ofConfig {} : Pipeline Unit).discover
        [⟨"ui/package.json", sampleTexts.1⟩]).1.DiscoversAfresh {}
          [⟨"ui//package.json", sampleTexts.1⟩, ⟨"db/package.json", sampleTexts.2⟩] := by
  have hreach : Reachable {sampleTexts.1, sampleTexts.2} (∅ : Set (Bundler Unit)) {}
      ((ofConfig {} : Pipeline Unit).discover [⟨"ui/package.json", sampleTexts.1⟩]).1 :=
    .discover .start (by simp)
  exact ⟨fingerprintsSeparate_sampleTexts,
    hreach.discoversAfresh fingerprintsSeparate_sampleTexts (by simp)⟩

end Pipeline

end PackageRouting
