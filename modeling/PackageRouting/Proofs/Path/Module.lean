/-
PackageRouting/Proofs/Path/Module.lean

Being the same module, for paths of any bytes.

Whether two paths are the same path is decided on their components, and whether
they agree up to a script extension on the texts that they are shown as.  Both
fit together because equal paths are shown alike, and because the stem of a text
is the text's own (`HasScriptStem.unique`).

What a path is shown as is read back as its components with every name shown
(`components_toSlash`): broken bytes make no name empty and put no slash into
it.  So a path comes back as it was exactly if its names are UTF-8, and only
among such paths the texts tell all paths apart.  The paths of texts are among
them, and on these everything is what it is for texts (`sameModule_ofPath`).

Main result: `sameModule_isEquivalence`.
-/
import PackageRouting.Path.Bytes
import PackageRouting.Proofs.Path.Normal
import PackageRouting.Proofs.Text.Utf8

namespace PackageRouting

/-- The text is that of a script, and so is the other, and they agree up to the extension. -/
def ShareScriptStem (text text' : String) : Prop :=
  ∃ stem, HasScriptStem text stem ∧ HasScriptStem text' stem

section Stem

variable {s t u : String}

theorem ShareScriptStem.symm (h : ShareScriptStem s t) : ShareScriptStem t s := by
  obtain ⟨stem, hs, ht⟩ := h
  exact ⟨stem, ht, hs⟩

/-- What the middle text is cut to is the stem of all three. -/
theorem ShareScriptStem.trans (h : ShareScriptStem s t) (h' : ShareScriptStem t u) :
    ShareScriptStem s u := by
  obtain ⟨stem, hs, ht⟩ := h
  obtain ⟨stem', ht', hu⟩ := h'
  obtain rfl := ht.unique ht'
  exact ⟨stem, hs, hu⟩

theorem agreeOnStem_iff : agreeOnStem s t ↔ ShareScriptStem s t := by
  constructor
  · intro h
    unfold agreeOnStem at h
    split at h
    · next base extension base' extension' hs ht =>
      obtain rfl : base = base' := beq_iff_eq.1 h
      obtain ⟨stem, rfl⟩ := exists_stem_of_splitScript? hs
      exact ⟨stem, hasScriptStem_iff.2 ⟨extension, hs⟩, hasScriptStem_iff.2 ⟨extension', ht⟩⟩
    · cases h
  · rintro ⟨stem, hs, ht⟩
    obtain ⟨extension, hs⟩ := hasScriptStem_iff.1 hs
    obtain ⟨extension', ht⟩ := hasScriptStem_iff.1 ht
    rw [agreeOnStem, hs, ht]
    exact beq_self_eq_true _

end Stem

namespace ByteComponent

open Component (IsProperName WellFormed)

/-! ### Components of bytes and of texts -/

theorem utf8_injective {s t : String} (h : s.toUTF8.toList = t.toUTF8.toList) : s = t := by
  rw [← Text.decodeLossy_toUTF8 s, h, Text.decodeLossy_toUTF8]

/-- **A component of a text is shown as it is.** -/
theorem shown_ofComponent (c : Component) : (ofComponent c).shown = c := by
  cases c with
  | name text => exact congrArg Component.name (Text.decodeLossy_toUTF8 text)
  | _ => rfl

theorem map_shown_ofComponent (cs : List Component) : (cs.map ofComponent).map shown = cs := by
  rw [List.map_map]
  exact (List.map_congr_left fun c _ => shown_ofComponent c).trans (List.map_id cs)

/-- The component is no name, or one in UTF-8. -/
def IsUnicode : ByteComponent → Prop
  | name bytes => ∃ text : String, bytes = text.toUTF8.toList
  | _ => True

theorem isUnicode_iff {c : ByteComponent} : c.IsUnicode ↔ ofComponent c.shown = c := by
  cases c with
  | name bytes =>
    constructor
    · rintro ⟨text, rfl⟩
      exact congrArg name (congrArg (·.toUTF8.toList) (Text.decodeLossy_toUTF8 text))
    · intro h
      exact ⟨Text.decodeLossy bytes, (name.inj h).symm⟩
  | _ => exact iff_of_true trivial rfl

/-- **What a name is shown as is a proper name**, also if its bytes are broken. -/
theorem isProperName_decodeLossy {bytes : List UInt8} (hempty : bytes ≠ [])
    (hdot : bytes ≠ [0x2E]) (hup : bytes ≠ [0x2E, 0x2E]) (hslash : (0x2F : UInt8) ∉ bytes) :
    IsProperName (Text.decodeLossy bytes) := by
  have hsingle : Text.IsSingle '.' := by decide
  refine ⟨fun h => hempty ?_, fun h => hdot ?_, fun h => hup ?_, fun h => hslash ?_⟩
  · exact Text.eq_of_decodeLossy_eq (l := []) (by simp) h
  · exact Text.eq_of_decodeLossy_eq (l := ['.']) (by simpa using hsingle) h
  · exact Text.eq_of_decodeLossy_eq (l := ['.', '.']) (by simpa using hsingle) h
  · exact Text.byte_mem_of_mem_decodeLossy (c := '/') (by decide) h

end ByteComponent

namespace BytePath

open Component (IsInner WellFormed)

variable {a b c : BytePath}

/-! ### What a path is shown as -/

theorem isInner_of_laterComponent? {bytes : List UInt8} {c : ByteComponent}
    (h : laterComponent? bytes = some c) (hslash : (0x2F : UInt8) ∉ bytes) : c.shown.IsInner := by
  unfold laterComponent? at h
  split at h
  · cases h
  · cases h
  · cases h
    trivial
  · next hempty hdot hup =>
    cases h
    exact ByteComponent.isProperName_decodeLossy hempty hdot hup hslash

/-- **The components that are shown are well formed.** -/
theorem wellFormed_shown (p : BytePath) : WellFormed (p.components.map ByteComponent.shown) := by
  have hpieces : ∀ piece ∈ p.segments, (0x2F : UInt8) ∉ piece :=
    fun piece hpiece => Path.not_mem_of_mem_splitOn hpiece
  rw [components]
  cases hs : p.segments with
  | nil => exact .nil
  | cons first rest =>
    rw [hs] at hpieces
    have hrest : ∀ c ∈ (rest.filterMap laterComponent?).map ByteComponent.shown, c.IsInner := by
      intro c hc
      obtain ⟨c', hc', rfl⟩ := List.mem_map.1 hc
      obtain ⟨piece, hmem, hsome⟩ := List.mem_filterMap.1 hc'
      exact isInner_of_laterComponent? hsome (hpieces piece (List.mem_cons_of_mem _ hmem))
    show WellFormed (((firstComponent? (!rest.isEmpty) first).toList ++ _).map _)
    rw [List.map_append]
    unfold firstComponent?
    split
    · split
      · exact .root hrest
      · exact .of_inner hrest
    · exact .here hrest
    · exact .inner trivial hrest
    · next hempty hdot hup =>
      exact .inner (ByteComponent.isProperName_decodeLossy hempty hdot hup
        (hpieces _ List.mem_cons_self)) hrest

/-- **What a path is shown as has the components of the path, each as it is shown.** -/
theorem components_toSlash (p : BytePath) :
    (⟨p.toSlash⟩ : Path).components = p.components.map ByteComponent.shown :=
  Component.components_render (wellFormed_shown p)

theorem toSlash_congr (h : a ≈ b) : a.toSlash = b.toSlash := by
  rw [toSlash, toSlash, show a.components = b.components from h]

/-- Paths are shown alike iff their components are. -/
theorem toSlash_eq_iff : a.toSlash = b.toSlash ↔
    a.components.map ByteComponent.shown = b.components.map ByteComponent.shown := by
  refine ⟨fun h => ?_, congrArg Component.render⟩
  rw [← components_toSlash a, h, components_toSlash]

/-! ### Paths of texts -/

theorem utf8_dots : "".toUTF8.toList = [] ∧ ".".toUTF8.toList = [0x2E] ∧
    "..".toUTF8.toList = [0x2E, 0x2E] := by
  simp only [Text.toList_toUTF8]
  exact ⟨rfl, rfl, rfl⟩

theorem laterComponent?_toUTF8 (s : String) : laterComponent? s.toUTF8.toList =
    (Path.laterComponent? s).map ByteComponent.ofComponent := by
  obtain ⟨hempty, hdot, hup⟩ := utf8_dots
  unfold Path.laterComponent?
  split
  · rw [hempty]
    rfl
  · rw [hdot]
    rfl
  · rw [hup]
    rfl
  · next hne hne' hne'' =>
    unfold laterComponent?
    split
    · next h => exact absurd (ByteComponent.utf8_injective (h.trans hempty.symm)) hne
    · next h => exact absurd (ByteComponent.utf8_injective (h.trans hdot.symm)) hne'
    · next h => exact absurd (ByteComponent.utf8_injective (h.trans hup.symm)) hne''
    · rfl

theorem firstComponent?_toUTF8 (slash : Bool) (s : String) :
    firstComponent? slash s.toUTF8.toList =
      (Path.firstComponent? slash s).map ByteComponent.ofComponent := by
  obtain ⟨hempty, hdot, hup⟩ := utf8_dots
  unfold Path.firstComponent?
  split
  · rw [hempty]
    cases slash <;> rfl
  · rw [hdot]
    rfl
  · rw [hup]
    rfl
  · next hne hne' hne'' =>
    unfold firstComponent?
    split
    · next h => exact absurd (ByteComponent.utf8_injective (h.trans hempty.symm)) hne
    · next h => exact absurd (ByteComponent.utf8_injective (h.trans hdot.symm)) hne'
    · next h => exact absurd (ByteComponent.utf8_injective (h.trans hup.symm)) hne''
    · rfl

theorem slash_ne_ofNat {n : Nat} (h : 128 ≤ n) (h' : n < 256) : (0x2F : UInt8) ≠ UInt8.ofNat n := by
  intro heq
  have hnat : 47 = n % 256 := by simpa using congrArg UInt8.toNat heq
  omega

/-- A slash is a byte of its own, and no byte of a longer character. -/
theorem slash_mem_utf8EncodeChar_iff {c : Char} :
    (0x2F : UInt8) ∈ String.utf8EncodeChar c ↔ c = '/' := by
  constructor
  · intro h
    rw [String.utf8EncodeChar.eq_def] at h
    dsimp only at h
    split at h
    · have hbyte : 47 = c.val.toNat % 256 := by
        simpa using congrArg UInt8.toNat (List.mem_singleton.1 h)
      have hnat : c.val.toNat = '/'.val.toNat := by
        show c.val.toNat = 47
        omega
      exact Char.ext (UInt32.toNat_inj.1 hnat)
    · repeat' split at h
      all_goals
        simp only [List.mem_cons, List.not_mem_nil, or_false] at h
        repeat' rcases h with h | h
      all_goals exact absurd h (slash_ne_ofNat (by omega) (by omega))
  · rintro rfl
    decide

theorem splitOn_append_of_notMem {α : Type} [BEq α] [LawfulBEq α] {sep : α} {front : List α}
    (h : sep ∉ front) (l : List α) :
    (front ++ l).splitOn sep = (l.splitOn sep).modifyHead (front ++ ·) := by
  induction front with
  | nil => exact (congrFun List.modifyHead_id _).symm
  | cons a front ih =>
    have hne : ¬ (a == sep) = true := fun ha => h (by simp [beq_iff_eq.1 ha])
    rw [List.cons_append, List.splitOn_cons_eq_if_modifyHead, if_neg hne,
      ih fun hmem => h (List.mem_cons_of_mem a hmem), List.modifyHead_modifyHead]
    rfl

/-- **The pieces of a text are spelled one by one.** -/
theorem splitOn_flatMap (l : List Char) :
    (l.flatMap String.utf8EncodeChar).splitOn 0x2F =
      (l.splitOn '/').map (·.flatMap String.utf8EncodeChar) := by
  induction l with
  | nil => rfl
  | cons c l ih =>
    rw [List.flatMap_cons, List.splitOn_cons_eq_if_modifyHead]
    by_cases hc : c = '/'
    · have hbytes : String.utf8EncodeChar c = [0x2F] := by
        rw [hc]
        decide
      rw [hbytes, List.singleton_append, List.splitOn_cons_eq_if_modifyHead,
        if_pos (beq_self_eq_true _), if_pos (by simpa using hc), ih]
      rfl
    · rw [splitOn_append_of_notMem (mt slash_mem_utf8EncodeChar_iff.1 hc), ih,
        if_neg (by simpa using hc)]
      cases l.splitOn '/' with
      | nil => rfl
      | cons piece pieces => rfl

theorem segments_ofPath (p : Path) :
    (ofPath p).segments = p.segments.map fun s => s.toUTF8.toList := by
  rw [segments, ofPath, Path.segments, Text.toList_toUTF8, splitOn_flatMap, List.map_map]
  refine List.map_congr_left fun piece _ => ?_
  rw [Function.comp_apply, Text.toList_toUTF8, String.toList_ofList]

/-- **The path of a text has the components of the text.** -/
theorem components_ofPath (p : Path) :
    (ofPath p).components = p.components.map ByteComponent.ofComponent := by
  rw [components, segments_ofPath, Path.components]
  cases p.segments with
  | nil => rfl
  | cons first rest =>
    have hrest : (rest.map fun s => s.toUTF8.toList).filterMap laterComponent? =
        (rest.filterMap Path.laterComponent?).map ByteComponent.ofComponent := by
      rw [List.filterMap_map, List.map_filterMap]
      exact congrArg (List.filterMap · rest) (funext laterComponent?_toUTF8)
    show (firstComponent? (!(rest.map _).isEmpty) _).toList ++ _ = List.map _ (_ ++ _)
    rw [hrest, List.isEmpty_map, firstComponent?_toUTF8, List.map_append, Option.toList_map]

theorem ofPath_equiv_iff {p q : Path} : ofPath p ≈ ofPath q ↔ p ≈ q := by
  show (ofPath p).components = (ofPath q).components ↔ p.components = q.components
  rw [components_ofPath, components_ofPath]
  refine ⟨fun h => ?_, congrArg _⟩
  rw [← ByteComponent.map_shown_ofComponent p.components, h, ByteComponent.map_shown_ofComponent]

/-- The path of a text is shown as the text is. -/
theorem toSlash_ofPath (p : Path) : (ofPath p).toSlash = p.toSlash := by
  rw [toSlash, components_ofPath, ByteComponent.map_shown_ofComponent, Path.toSlash]

/-- **On paths of texts, being the same module is what it is for texts.** -/
theorem sameModule_ofPath (p q : Path) : (ofPath p).sameModule (ofPath q) = p.sameModule q := by
  simp only [sameModule, Path.sameModule, ofPath_equiv_iff, toSlash_ofPath]

/-! ### Being the same module -/

/-- All names are UTF-8. -/
def IsUnicode (p : BytePath) : Prop := ∀ c ∈ p.components, c.IsUnicode

theorem isUnicode_iff : a.IsUnicode ↔
    (a.components.map ByteComponent.shown).map ByteComponent.ofComponent = a.components := by
  rw [List.map_map]
  constructor
  · intro h
    exact (List.map_congr_left fun c hc => ByteComponent.isUnicode_iff.1 (h c hc)).trans
      (List.map_id _)
  · intro h c hc
    exact ByteComponent.isUnicode_iff.2 (List.map_inj_left.1 (h.trans (List.map_id _).symm) c hc)

theorem isUnicode_ofPath (p : Path) : (ofPath p).IsUnicode := by
  rw [isUnicode_iff, components_ofPath, ByteComponent.map_shown_ofComponent]

/-- **A path is read back from what it is shown as iff its names are UTF-8.** -/
theorem ofPath_toSlash_equiv_iff : ofPath ⟨a.toSlash⟩ ≈ a ↔ a.IsUnicode := by
  show (ofPath ⟨a.toSlash⟩).components = a.components ↔ _
  rw [components_ofPath, components_toSlash, isUnicode_iff]

/-- **What paths with such names are shown as tells them apart.** -/
theorem IsUnicode.toSlash_eq_iff (ha : a.IsUnicode) (hb : b.IsUnicode) :
    a.toSlash = b.toSlash ↔ a ≈ b := by
  refine ⟨fun h => ?_, toSlash_congr⟩
  show a.components = b.components
  rw [← isUnicode_iff.1 ha, BytePath.toSlash_eq_iff.1 h, isUnicode_iff.1 hb]

/-- **Paths are the same module iff they are the same path or agree up to a script extension.** -/
theorem sameModule_iff : a.sameModule b ↔ a ≈ b ∨ ShareScriptStem a.toSlash b.toSlash := by
  rw [sameModule]
  by_cases hab : a ≈ b
  · exact iff_of_true (if_pos hab) (.inl hab)
  · rw [if_neg hab, or_iff_right hab, agreeOnStem_iff]

theorem sameModule_symm (h : a.sameModule b) : b.sameModule a :=
  sameModule_iff.2 ((sameModule_iff.1 h).imp Eq.symm ShareScriptStem.symm)

theorem sameModule_trans (h : a.sameModule b) (h' : b.sameModule c) : a.sameModule c := by
  rcases sameModule_iff.1 h with hab | hab
  · rcases sameModule_iff.1 h' with hbc | hbc
    · exact sameModule_iff.2 (.inl (Eq.trans hab hbc))
    · rw [← toSlash_congr hab] at hbc
      exact sameModule_iff.2 (.inr hbc)
  · rcases sameModule_iff.1 h' with hbc | hbc
    · rw [toSlash_congr hbc] at hab
      exact sameModule_iff.2 (.inr hab)
    · exact sameModule_iff.2 (.inr (hab.trans hbc))

/-- Spellings of two paths name the same modules. -/
theorem sameModule_congr {a' b' : BytePath} (ha : a ≈ a') (hb : b ≈ b') :
    a.sameModule b = a'.sameModule b' := by
  have hiff : a ≈ b ↔ a' ≈ b' := by
    show a.components = b.components ↔ a'.components = b'.components
    rw [show a.components = a'.components from ha, show b.components = b'.components from hb]
  simp only [sameModule, hiff, toSlash_congr ha, toSlash_congr hb]

/-- **Being the same module is an equivalence of paths**, whatever their bytes and their spelling:
it holds of the spellings of one path, and of scripts that are shown alike up to the extension.  A
path is read back from what it is shown as iff its names are UTF-8, and such paths are shown alike
iff they are the same path.  The paths of texts are among them, and are shown and compared as the
texts are. -/
theorem sameModule_isEquivalence :
    Equivalence (fun a b : BytePath => a.sameModule b = true) ∧
      (∀ a a' b b' : BytePath, a ≈ a' → b ≈ b' → a.sameModule b = a'.sameModule b') ∧
      (∀ a b : BytePath, a.sameModule b = true ↔
        a ≈ b ∨ ∃ stem, HasScriptStem a.toSlash stem ∧ HasScriptStem b.toSlash stem) ∧
      (∀ a b : BytePath, a.IsUnicode → b.IsUnicode → (a.toSlash = b.toSlash ↔ a ≈ b)) ∧
      (∀ a : BytePath, ofPath ⟨a.toSlash⟩ ≈ a ↔ a.IsUnicode) ∧
      ∀ p q : Path, (ofPath p).IsUnicode ∧ (ofPath p).toSlash = p.toSlash ∧
        (ofPath p ≈ ofPath q ↔ p ≈ q) ∧ (ofPath p).sameModule (ofPath q) = p.sameModule q := by
  refine ⟨⟨fun a => sameModule_iff.2 (.inl rfl), sameModule_symm, sameModule_trans⟩, ?_,
    fun a b => sameModule_iff, fun a b ha hb => ha.toSlash_eq_iff hb,
    fun a => ofPath_toSlash_equiv_iff, ?_⟩
  · exact fun a a' b b' ha hb => sameModule_congr ha hb
  · exact fun p q => ⟨isUnicode_ofPath p, toSlash_ofPath p, ofPath_equiv_iff, sameModule_ofPath p q⟩

/-- Two spellings of one path with a name beyond ASCII, and the script that it is built to. -/
theorem sameModule_spellings :
    let a : BytePath := ofPath ⟨"é//a.ts"⟩
    let a' : BytePath := ofPath ⟨"é/./a.ts"⟩
    let b : BytePath := ofPath ⟨"é/a.js"⟩
    a ≈ a' ∧ a.IsUnicode ∧ a'.IsUnicode ∧ a.toSlash = a'.toSlash ∧ a.sameModule b ∧
      a'.sameModule b ∧ ¬ a ≈ b := by
  intro a a' b
  have hequiv : a ≈ a' := ofPath_equiv_iff.2 (by decide +kernel)
  have hdiffer : ¬ a ≈ b := fun h => absurd (ofPath_equiv_iff.1 h) (by decide +kernel)
  obtain ⟨-, hcongr, -, hfaithful, -, htexts⟩ := sameModule_isEquivalence
  have ha : a.IsUnicode := (htexts ⟨"é//a.ts"⟩ ⟨"é/a.js"⟩).1
  have ha' : a'.IsUnicode := (htexts ⟨"é/./a.ts"⟩ ⟨"é/a.js"⟩).1
  have hsame : a.sameModule b := by
    rw [(htexts ⟨"é//a.ts"⟩ ⟨"é/a.js"⟩).2.2.2]
    decide +kernel
  refine ⟨hequiv, ha, ha', (hfaithful a a' ha ha').2 hequiv, hsame, ?_, hdiffer⟩
  rw [← hcongr a a' b b hequiv rfl]
  exact hsame

/-- A name with a broken byte is none in UTF-8. -/
theorem not_isUnicode_of_broken {p : BytePath} {bytes : List UInt8}
    (hname : .name bytes ∈ p.components) (hbroken : none ∈ Text.decode bytes) :
    ¬ p.IsUnicode := by
  intro h
  obtain ⟨text, rfl⟩ : ∃ text : String, bytes = text.toUTF8.toList := h _ hname
  rw [Text.decode_toUTF8] at hbroken
  simp at hbroken

/-- **Two different names may be shown alike**, and neither is read back: here a byte that starts no
character stands in front of `.js`. -/
theorem toSlash_eq_of_broken :
    let a : BytePath := ⟨[0xFF, 0x2E, 0x6A, 0x73]⟩
    let b : BytePath := ⟨[0xFE, 0x2E, 0x6A, 0x73]⟩
    ¬ (a.toSlash = b.toSlash ↔ a ≈ b) ∧ ¬ ofPath ⟨a.toSlash⟩ ≈ a ∧ ¬ ofPath ⟨b.toSlash⟩ ≈ b := by
  intro a b
  have hshown : a.toSlash = b.toSlash := by decide +kernel
  have hdiffer : ¬ a ≈ b := by decide
  have hbroken : none ∈ Text.decode a.bytes ∧ none ∈ Text.decode b.bytes := by decide +kernel
  refine ⟨fun h => hdiffer (h.1 hshown), ?_, ?_⟩
  · rw [ofPath_toSlash_equiv_iff]
    exact not_isUnicode_of_broken (by decide) hbroken.1
  · rw [ofPath_toSlash_equiv_iff]
    exact not_isUnicode_of_broken (by decide) hbroken.2

end BytePath

end PackageRouting
