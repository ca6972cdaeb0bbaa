/-
PackageRouting/Path/Module.lean

Script files, and when two paths name the same module.  A package exports the
built form of a source (`dist/a.js`) while the candidates of a pass are sources
(`dist/a.ts`), so two script paths that differ in nothing but their extension
count as one module.

`splitScript?` is the one place where a script extension is recognised; main
results: `splitScript?_append` (the two parts are the text) and
`hasScriptStem_iff` (a text is cut exactly if it is a stem, a dot and a script
extension).
-/
import PackageRouting.Path.Basic

namespace PackageRouting

/-- The extensions of script sources. -/
def scriptExtensions : List String := ["js", "jsx", "mjs", "ts", "tsx", "mts"]

/-- A text that ends in a dot and a script extension, cut behind the dot. -/
def splitScript? (text : String) : Option (String × String) :=
  match Text.cutAtLast '.' text.toList with
  | none => none
  | some (before, after) =>
    let extension := String.ofList after
    if extension ∈ scriptExtensions then some (String.ofList (before ++ ['.']), extension)
    else none

theorem splitScript?_append {text base extension : String}
    (h : splitScript? text = some (base, extension)) :
    base ++ extension = text ∧ extension ∈ scriptExtensions := by
  simp only [splitScript?] at h
  split at h
  · simp at h
  · next before after hcut =>
    split at h
    · next hmem =>
      simp only [Option.some.injEq, Prod.mk.injEq] at h
      obtain ⟨rfl, rfl⟩ := h
      refine ⟨?_, hmem⟩
      rw [← String.toList_inj, ← Text.cutAtLast_append hcut]
      simp
    · simp at h

theorem dot_notMem_of_mem_scriptExtensions :
    ∀ extension ∈ scriptExtensions, '.' ∉ extension.toList := by decide

theorem slash_notMem_of_mem_scriptExtensions :
    ∀ extension ∈ scriptExtensions, '/' ∉ extension.toList := by decide

/-- The text is a stem, a dot and a script extension. -/
def HasScriptStem (text stem : String) : Prop :=
  ∃ extension ∈ scriptExtensions, text = stem ++ "." ++ extension

/-- **A text is cut behind the dot iff it is a stem, a dot and a script extension.** -/
theorem hasScriptStem_iff {text stem : String} :
    HasScriptStem text stem ↔ ∃ extension, splitScript? text = some (stem ++ ".", extension) := by
  constructor
  · rintro ⟨extension, hmem, rfl⟩
    have hcut : Text.cutAtLast '.' (stem ++ "." ++ extension).toList =
        some (stem.toList, extension.toList) := by
      have htext : (stem ++ "." ++ extension).toList = stem.toList ++ '.' :: extension.toList := by
        simp
      rw [htext]
      exact Text.cutAtLast_of_notMem (dot_notMem_of_mem_scriptExtensions extension hmem) _
    refine ⟨extension, ?_⟩
    rw [splitScript?, hcut]
    simp only [String.ofList_toList, if_pos hmem, String.ofList_append]
  · rintro ⟨extension, h⟩
    obtain ⟨htext, hmem⟩ := splitScript?_append h
    exact ⟨extension, hmem, htext.symm⟩

/-- What is cut off ends in a dot. -/
theorem exists_stem_of_splitScript? {text base extension : String}
    (h : splitScript? text = some (base, extension)) : ∃ stem, base = stem ++ "." := by
  simp only [splitScript?] at h
  split at h
  · cases h
  · next before after _ =>
    split at h
    · obtain ⟨rfl, -⟩ := Prod.mk.inj (Option.some.inj h)
      exact ⟨String.ofList before, String.ofList_append⟩
    · cases h

/-- A text is cut iff it has a stem. -/
theorem isSome_splitScript?_iff {text : String} :
    (splitScript? text).isSome ↔ ∃ stem, HasScriptStem text stem := by
  rw [Option.isSome_iff_exists]
  constructor
  · rintro ⟨⟨base, extension⟩, h⟩
    obtain ⟨stem, rfl⟩ := exists_stem_of_splitScript? h
    exact ⟨stem, hasScriptStem_iff.2 ⟨extension, h⟩⟩
  · rintro ⟨stem, hstem⟩
    obtain ⟨extension, h⟩ := hasScriptStem_iff.1 hstem
    exact ⟨_, h⟩

/-- The stem is read off the text. -/
theorem HasScriptStem.unique {text stem stem' : String} (h : HasScriptStem text stem)
    (h' : HasScriptStem text stem') : stem = stem' := by
  obtain ⟨extension, hsplit⟩ := hasScriptStem_iff.1 h
  obtain ⟨extension', hsplit'⟩ := hasScriptStem_iff.1 h'
  have hbase := (Prod.mk.inj (Option.some.inj (hsplit.symm.trans hsplit'))).1
  simpa using hbase

/-- The script extension of a text. -/
def scriptExtension? (text : String) : Option String := (splitScript? text).map (·.2)

/-- Whether two texts are those of scripts and agree up to the extension. -/
def agreeOnStem (text text' : String) : Bool :=
  match splitScript? text, splitScript? text' with
  | some (base, _), some (base', _) => base == base'
  | _, _ => false

namespace Path

/-- Whether a path has a script extension. -/
def isScript (p : Path) : Bool := (splitScript? p.toSlash).isSome

/-- Whether a candidate source is the module that a target names: the same path, or two script
paths that agree up to the extension. -/
def sameModule (candidate target : Path) : Bool :=
  if candidate ≈ target then true else agreeOnStem candidate.toSlash target.toSlash

end Path

end PackageRouting
