/-
PackageRouting/Proofs/Pattern/Capture.lean

What a wildcard stands for.

A pattern that is filled with a text is matched with that text.  Where the back
of the pattern ends in a script extension, so does every filled pattern, with
the same stem up to the back's own (`hasScriptStem_substitute`).  Cutting the
extension off the back alone therefore comes to the same as cutting it off the
whole filled pattern, and the search by stems agrees with the search by texts
wherever both succeed.

Main result: `captures_iff_fills`.
-/
import PackageRouting.Pattern

namespace PackageRouting

namespace Pattern

variable {p : Pattern} {candidate star : String}

/-- The candidate is the pattern with the text, which is not empty, in the wildcard's place; or
both end in a script extension, and they agree up to there. -/
def FillsUpToScript (p : Pattern) (candidate star : String) : Prop :=
  star ≠ "" ∧ (candidate = p.front ++ star ++ p.back ∨
    ∃ stem, HasScriptStem candidate stem ∧ HasScriptStem (p.front ++ star ++ p.back) stem)

/-- A filled pattern ends in the script extension of its back. -/
theorem hasScriptStem_substitute {stem : String} (h : HasScriptStem p.back stem) (star : String) :
    HasScriptStem (p.front ++ star ++ p.back) (p.front ++ star ++ stem) := by
  obtain ⟨extension, hmem, hback⟩ := h
  refine ⟨extension, hmem, ?_⟩
  rw [hback, String.append_assoc, String.append_assoc, String.append_assoc, String.append_assoc,
    String.append_assoc]

theorem fillsUpToScript_iff {backStem : String} (h : HasScriptStem p.back backStem) :
    FillsUpToScript p candidate star ↔ star ≠ "" ∧ (candidate = p.front ++ star ++ p.back ∨
      HasScriptStem candidate (p.front ++ star ++ backStem)) := by
  have hfilled := hasScriptStem_substitute h star
  refine and_congr_right fun _ => or_congr_right ⟨?_, fun hstem => ⟨_, hstem, hfilled⟩⟩
  rintro ⟨stem, hstem, hfilled'⟩
  rwa [← hfilled'.unique hfilled]

/-- **At most one text fills the wildcard.** -/
theorem FillsUpToScript.unique {star' : String} (hback : ∃ stem, HasScriptStem p.back stem)
    (h : FillsUpToScript p candidate star) (h' : FillsUpToScript p candidate star') :
    star = star' := by
  obtain ⟨backStem, hback⟩ := hback
  -- in either case the candidate has the stem of the filled pattern
  have hstem : ∀ s, FillsUpToScript p candidate s →
      HasScriptStem candidate (p.front ++ s ++ backStem) := by
    intro s hs
    rcases ((fillsUpToScript_iff hback).1 hs).2 with rfl | hs
    · exact hasScriptStem_substitute hback s
    · exact hs
  simpa using (hstem star h).unique (hstem star' h')

theorem captureModule?_of_capture? (h : p.capture? candidate = some star) :
    p.captureModule? candidate = some star := by
  rw [captureModule?, h]

/-- Without a script extension in its back a pattern is matched by its text alone. -/
theorem captureModule?_of_noScript (h : ¬ ∃ stem, HasScriptStem p.back stem) :
    p.captureModule? candidate = p.capture? candidate := by
  have hsplit : splitScript? p.back = none := by
    rwa [← Option.not_isSome_iff_eq_none, isSome_splitScript?_iff]
  cases hcapture : p.capture? candidate with
  | some star => exact captureModule?_of_capture? hcapture
  | none =>
    rw [captureModule?, hcapture, hsplit]
    cases splitScript? candidate <;> rfl

/-- Where the text of a candidate does not match, its stem may. -/
theorem captureModule?_of_stem {backStem : String} (hback : HasScriptStem p.back backStem)
    (h : p.capture? candidate = none) :
    p.captureModule? candidate = some star ↔
      star ≠ "" ∧ HasScriptStem candidate (p.front ++ star ++ backStem) := by
  obtain ⟨extension, hsplit⟩ := hasScriptStem_iff.1 hback
  rw [captureModule?, h, hsplit, hasScriptStem_iff]
  cases hcandidate : splitScript? candidate with
  | none => simp
  | some parts =>
    obtain ⟨base, extension'⟩ := parts
    show captureBetween? p.front (backStem ++ ".") base = some star ↔ _
    rw [captureBetween?_eq_some_iff]
    simp [String.append_assoc]

/-- **A module capture is the text that fills the wildcard**, up to script extensions. -/
theorem captureModule?_eq_some_iff (hback : ∃ stem, HasScriptStem p.back stem) :
    p.captureModule? candidate = some star ↔ FillsUpToScript p candidate star := by
  obtain ⟨backStem, hstem⟩ := hback
  cases hcapture : p.capture? candidate with
  | none =>
    rw [captureModule?_of_stem hstem hcapture, fillsUpToScript_iff hstem]
    refine and_congr_right fun hstar => (or_iff_right fun hfills => ?_).symm
    rw [capture?_eq_some_iff.2 ⟨hstar, hfills⟩] at hcapture
    cases hcapture
  | some star' =>
    obtain ⟨hstar', hfills'⟩ := capture?_eq_some_iff.1 hcapture
    rw [captureModule?_of_capture? hcapture, Option.some_inj]
    constructor
    · rintro rfl
      exact ⟨hstar', .inl hfills'⟩
    · intro hfills
      exact FillsUpToScript.unique ⟨backStem, hstem⟩ ⟨hstar', .inl hfills'⟩ hfills

/-- **A wildcard stands for exactly the text that fills it.**  A capture is the text, which is not
empty, between the front and the back of the pattern.  A pattern whose back has no script extension
takes modules by their text; one whose back has an extension takes the modules that are the filled
pattern, or agree with it up to the extensions of both, and none of them in two ways. -/
theorem captures_iff_fills (p : Pattern) (candidate star : String) :
    (p.capture? candidate = some star ↔ star ≠ "" ∧ candidate = p.front ++ star ++ p.back) ∧
    ((¬ ∃ stem, HasScriptStem p.back stem) →
      p.captureModule? candidate = p.capture? candidate) ∧
    ((∃ stem, HasScriptStem p.back stem) →
      (p.captureModule? candidate = some star ↔ FillsUpToScript p candidate star) ∧
      ∀ star', FillsUpToScript p candidate star → FillsUpToScript p candidate star' →
        star = star') :=
  ⟨capture?_eq_some_iff, captureModule?_of_noScript,
    fun hback => ⟨captureModule?_eq_some_iff hback, fun _ => FillsUpToScript.unique hback⟩⟩

/-- A source in another language is taken by its stem.  A pattern that ends in a script extension
only once it is filled takes texts, and nothing else. -/
theorem captures_iff_fills_samples :
    let scripts : Pattern := ⟨"ui/src/", "/index.js"⟩
    let letters : Pattern := ⟨"ui/a.", "s"⟩
    ((∃ stem, HasScriptStem scripts.back stem) ∧ scripts.capture? "ui/src/a/b/index.ts" = none ∧
      scripts.captureModule? "ui/src/a/b/index.ts" = some "a/b" ∧
      FillsUpToScript scripts "ui/src/a/b/index.ts" "a/b" ∧
      ∀ star, FillsUpToScript scripts "ui/src/a/b/index.ts" star → "a/b" = star) ∧
    (¬ ∃ stem, HasScriptStem letters.back stem) ∧ letters.captureModule? "ui/a.mjs" = some "mj" ∧
      letters.captureModule? "ui/a.jsx" = letters.capture? "ui/a.jsx" := by
  intro scripts letters
  have hscripts : ∃ stem, HasScriptStem scripts.back stem := ⟨"/index", "js", by decide, rfl⟩
  have hletters : ¬ ∃ stem, HasScriptStem letters.back stem := by
    rintro ⟨stem, h⟩
    obtain ⟨extension, hsplit⟩ := hasScriptStem_iff.1 h
    rw [show splitScript? letters.back = none by decide +kernel] at hsplit
    cases hsplit
  have hcapture : scripts.captureModule? "ui/src/a/b/index.ts" = some "a/b" := by decide +kernel
  obtain ⟨-, -, hfills⟩ := captures_iff_fills scripts "ui/src/a/b/index.ts" "a/b"
  obtain ⟨hiff, hunique⟩ := hfills hscripts
  have hfill := hiff.1 hcapture
  exact ⟨⟨hscripts, by decide +kernel, hcapture, hfill, fun star => hunique star hfill⟩, hletters,
    by decide +kernel, (captures_iff_fills letters "ui/a.jsx" "j").2.1 hletters⟩

end Pattern

end PackageRouting
