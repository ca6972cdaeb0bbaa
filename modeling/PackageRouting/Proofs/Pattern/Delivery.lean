/-
PackageRouting/Proofs/Pattern/Delivery.lean

What a destination pattern delivers.

A manifest means, by a target pattern and a sequence of names, the file that the
filled pattern names from the package's directory.  The routing table has the
pattern as it is seen from there, and takes that file with exactly these names
(`captureModule?_of_rooted`), so that the destination pattern is filled with them
too (`yieldsPattern_of_captureModule?`).

Main result: `delivery?_rooted`.
-/
import PackageRouting.Proofs.Exports.Table
import PackageRouting.Proofs.Exports.Target
import PackageRouting.Proofs.Pattern.Capture
import PackageRouting.Proofs.Pattern.Rooted
import PackageRouting.Proofs.Precedence

namespace PackageRouting

open Pattern (IsNameSequence)
open ExportsTable (targetAt?)

variable {T R D : Pattern} {root p : Path} {star : String} {t : ExportsTable} {c : Condition}
  {fallback : Option DefaultDelivery} {tables : List ExportsTable} {i : Nat}

/-- **The file that is meant is taken with exactly the names that are meant.** -/
theorem Pattern.captureModule?_of_rooted (hroot : '*' ∉ root.text.toList)
    (hT : T.text.toList.count '*' = 1) (hR : T.rooted root = .ok R) (hstar : IsNameSequence star) :
    R.captureModule? (root.joinNormalized ⟨T.substitute star⟩).toSlash = some star :=
  captureModule?_of_capture? <|
    capture?_eq_some_iff.2 ⟨hstar.ne_empty, (substitute_of_rooted hroot hT hR hstar).symm⟩

/-- The target text of a manifest makes the pattern as it is seen from the directory. -/
theorem Resolution.patternTarget_of_rooted (hT : T.text.toList.count '*' = 1)
    (hR : T.rooted root = .ok R) : patternTarget root T.text = .ok (.pattern R) := by
  obtain ⟨hcount, htext⟩ := Pattern.parse_eq_ok_iff.1 hR
  exact patternTarget_eq_ok_iff.2 (.pattern hT htext (htext ▸ hcount))

/-- A pattern that takes a file fills the destination pattern with what it takes. -/
theorem ExportsTable.yieldsPattern_of_captureModule?
    (htarget : targetAt? t.patterns D c = some (.pattern R))
    (hcapture : R.captureModule? p.toSlash = some star) :
    t.YieldsPattern p (D.substitute star) c := by
  obtain ⟨entry, hentry, hfind⟩ := Option.bind_eq_some_iff.1 htarget
  exact ⟨D, entry, hentry, .inl ⟨R, star, hfind, hcapture, rfl⟩⟩

/-- What a pattern key yields is a route where nothing else takes the file first. -/
theorem ExportsTable.YieldsPattern.routes {d : String} (h : t.YieldsPattern p d c)
    (hc : c.IsBundled fallback) (ht : tables[i]? = some t) (hexact : NoExact fallback tables p)
    (hbefore : ∀ j < i, ∀ u, tables[j]? = some u → ¬ u.MatchesPattern fallback p) :
    Routes fallback tables i p d c :=
  ⟨hc, t, ht, .inr ⟨hexact, ⟨⟨t, ht, d, c, hc, h⟩, hbefore⟩, h⟩⟩

namespace Partition

variable {packages : List (String × Package)} {files : List SourceFile} {b : Bucket}
  {f : SourceFile} {d : String}

/-- Where a file is routed something is delivered, and it is the file's output if no file that is
listed before is routed there. -/
theorem exists_delivery?_of_routes
    (hb : (ofPackages fallback packages files).packages[i]? = some b) (hf : f ∈ files)
    (h : Routes fallback (tablesOf packages) i f.path.normalize d c) :
    ∃ output, b.delivery? d c = some output ∧
      (IsFirst (fun g => Routes fallback (tablesOf packages) i g.path.normalize d c) files f →
        b.outputNames.find? f.path.normalize = some output) := by
  have hsome : ∃ g ∈ files, Routes fallback (tablesOf packages) i g.path.normalize d c := ⟨f, hf, h⟩
  obtain ⟨g, hg⟩ := exists_isFirst_iff.2 hsome
  obtain ⟨output, hdelivery, hname⟩ := exists_delivery?_of_isFirst hb hg
  refine ⟨output, hdelivery, fun hfirst => ?_⟩
  rwa [hfirst.unique hg]

/-- **A target pattern means the same in a manifest and in the routing table.**  The pattern as it
is seen from the package's directory is filled with names to the path that the filled target text
has from there, and takes this path with exactly these names.  A file of this path is claimed for
the destination pattern with the names in it; and unless an exact target or a package that comes
before takes the file, that destination is delivered, from this file if it is the first one that is
routed there. -/
theorem delivery?_rooted (T R : Pattern) (root : Path) (star : String)
    (hT : T.text.toList.count '*' = 1) (hroot : '*' ∉ root.text.toList)
    (hR : T.rooted root = .ok R) (hstar : IsNameSequence star) :
    let meant := root.joinNormalized ⟨T.substitute star⟩
    R.substitute star = meant.toSlash ∧
    R.captureModule? meant.toSlash = some star ∧
    Resolution.patternTarget root T.text = .ok (.pattern R) ∧
    ∀ (r : Registry) (files : List SourceFile) (policy : Policy)
      (fallback : Option DefaultDelivery) (i : Nat) (b : Bucket) (t : ExportsTable) (D : Pattern)
      (c : Condition) (f : SourceFile),
      let tables := tablesOf (firstOfEachName (r.eligible policy))
      let d := D.substitute star
      let routed := fun g : SourceFile => Routes fallback tables i g.path.normalize d c
      (ofRegistry r files policy fallback).packages[i]? = some b → tables[i]? = some t →
      targetAt? t.patterns D c = some (.pattern R) → c.IsBundled fallback →
      f ∈ files → f.path.normalize ≈ meant →
      (∃ delivery, ⟨d, c, delivery⟩ ∈ t.patternClaims fallback f.path.normalize) ∧
      (NoExact fallback tables f.path.normalize →
        (∀ j < i, ∀ u, tables[j]? = some u → ¬ u.MatchesPattern fallback f.path.normalize) →
        routed f ∧ ∃ output, b.delivery? d c = some output ∧
          (IsFirst routed files f → b.outputNames.find? f.path.normalize = some output)) := by
  intro meant
  have hcapture := Pattern.captureModule?_of_rooted hroot hT hR hstar
  refine ⟨Pattern.substitute_of_rooted hroot hT hR hstar, hcapture,
    Resolution.patternTarget_of_rooted hT hR, ?_⟩
  intro r files policy fallback i b t D c f tables d routed hb ht htarget hc hf hmeant
  rw [← Path.toSlash_congr hmeant] at hcapture
  have hyields := ExportsTable.yieldsPattern_of_captureModule? htarget hcapture
  obtain ⟨delivery, hdelivery⟩ := Condition.exists_deliveryFor_iff.2 hc
  refine ⟨⟨delivery, ExportsTable.mem_patternClaims_iff.2 ⟨hdelivery, hyields⟩⟩,
    fun hexact hbefore => ?_⟩
  have hroute := hyields.routes hc ht hexact hbefore
  exact ⟨hroute, exists_delivery?_of_routes hb hf hroute⟩

/-- A package whose target pattern steps out of a directory again. -/
def relocated : Registry where
  packages := .ofList [
    (⟨"packages/ui/package.json"⟩,
      ⟨⟨some "ui", false, .classic,
        { patterns := .ofList [(⟨"./", ""⟩,
            .ofList [(.importModule, .pattern ⟨"packages/ui/lib/", ".js"⟩)])] },
        ⟨"packages/ui"⟩⟩, none⟩)]

/-- Two names are filled in, and the destination has both. -/
theorem delivery?_rooted_twoNames :
    let T : Pattern := ⟨"./src/../lib//", ".js"⟩
    let R : Pattern := ⟨"packages/ui/lib/", ".js"⟩
    let root : Path := ⟨"packages/ui"⟩
    let f : SourceFile := ⟨⟨"./packages/ui/lib/./a/b.js"⟩, false⟩
    T.text.toList.count '*' = 1 ∧ '*' ∉ root.text.toList ∧ T.rooted root = .ok R ∧
      IsNameSequence "a/b" ∧ R.substitute "a/b" = (root.joinNormalized ⟨T.substitute "a/b"⟩).toSlash ∧
      ∃ b output, (ofRegistry relocated [f] {} none).packages[0]? = some b ∧
        b.delivery? "./a/b" .importModule = some output ∧
        b.outputNames.find? f.path.normalize = some output := by
  intro T R root f
  have hT : T.text.toList.count '*' = 1 := by decide +kernel
  have hroot : '*' ∉ root.text.toList := by decide +kernel
  have hR : T.rooted root = .ok R := by decide +kernel
  have hstar : IsNameSequence "a/b" := by decide +kernel
  obtain ⟨hsubst, -, -, hdelivery⟩ := delivery?_rooted T R root "a/b" hT hroot hR hstar
  have hb : (ofRegistry relocated [f] {} none).packages[0]?.isSome := by decide +kernel
  obtain ⟨b, hb⟩ := Option.isSome_iff_exists.1 hb
  have hmeant : f.path.normalize ≈ root.joinNormalized ⟨T.substitute "a/b"⟩ := by decide +kernel
  obtain ⟨-, hdelivered⟩ := hdelivery relocated [f] {} none 0 b _ ⟨"./", ""⟩ .importModule f
    hb rfl rfl (.inl rfl) List.mem_cons_self hmeant
  have hexact : NoExact none (tablesOf (firstOfEachName (relocated.eligible {})))
      f.path.normalize := by
    intro t ht hmatch
    obtain rfl := List.mem_singleton.1 ht
    exact ExportsTable.exactClaims_ne_nil_iff.2 hmatch (by decide +kernel)
  obtain ⟨hroute, output, houtput, hname⟩ :=
    hdelivered hexact fun j hj => absurd hj (Nat.not_lt_zero j)
  exact ⟨hT, hroot, hR, hstar, hsubst, b, output, hb, houtput,
    hname ⟨[], [], rfl, hroute, by simp⟩⟩

end Partition

end PackageRouting
