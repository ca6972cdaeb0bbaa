/-
PackageRouting/Proofs/Exports/WellFormed.lean

What every routing table is like, whatever manifest it comes from.

The two halves of a table are kept apart by their keys: a pattern has a wildcard,
and a destination that is taken as it is has no glob character.  Both halves are
filled with entries one after another, and an entry that is added keeps what
holds of all keys and all targets so far (`Consists.add`).  The targets are
normal forms before they are added, since each of them was joined to the
package's directory.

Main result: `exports_wellFormed`.
-/
import PackageRouting.Package
import PackageRouting.Proofs.Exports.Resolution
import PackageRouting.Proofs.Path.Normal

namespace PackageRouting

/-! ### Targets -/

namespace Target

/-- The target has no wildcard. -/
def IsPath (target : Target) : Prop := ∃ p, target = .path p

/-- The target is a normal form: a path that folding leaves as it is, or a pattern with a single
wildcard whose text, read as a path, is left as it is by folding. -/
inductive IsNormal : Target → Prop
  | path {p : Path} (h : p.normalize = p) : IsNormal (.path p)
  | pattern {p : Pattern} (hcount : p.text.toList.count '*' = 1)
      (h : (⟨p.text⟩ : Path).normalize.toSlash = p.text) : IsNormal (.pattern p)

end Target

namespace Resolution

variable {root : Path} {text : String} {target : Target}

theorem isNormal_exactTarget (root : Path) (text : String) : (exactTarget root text).IsNormal :=
  .path (Path.normalize_normalize _)

theorem IsPatternTarget.isNormal (h : IsPatternTarget root text target) : target.IsNormal := by
  cases h with
  | path _ => exact isNormal_exactTarget root text
  | pattern _ htext hcount =>
    refine .pattern hcount ?_
    rw [htext]
    exact Path.toSlash_normalize_toSlash _

end Resolution

/-! ### Tables -/

/-- What an entry holds under a condition is one of the targets it was made of. -/
theorem Entry.exists_mem_of_find?_ofList {targets : List (Condition × Target)} {c : Condition}
    {target : Target} (h : (ofList targets).find? c = some target) :
    ∃ t ∈ targets, t.2 = target := by
  rw [find?_ofList] at h
  obtain ⟨t, ht, hsome⟩ := List.exists_of_findSome?_eq_some h
  split at hsome
  · exact ⟨t, ht, Option.some.inj hsome⟩
  · cases hsome

namespace ExportsTable

/-- A destination that is taken as it is. -/
def IsExactKey (d : String) : Prop :=
  d.toList.head? = some '.' ∧ ∀ c ∈ globCharacters, c ∉ d.toList

/-- A destination pattern. -/
def IsPatternKey (p : Pattern) : Prop :=
  p.text.toList.head? = some '.' ∧ p.text.toList.count '*' = 1

/-- One half of a table has keys and targets of one kind, and no empty entry. -/
structure Consists {κ : Type} [Ord κ] (IsKey : κ → Prop) (IsTarget : Target → Prop)
    (m : SortedMap κ Entry) : Prop where
  key : ∀ k e, m.find? k = some e → IsKey k
  nonempty : ∀ k e, m.find? k = some e → ¬ e.isEmpty
  target : ∀ k e, m.find? k = some e → ∀ c target, e.find? c = some target → IsTarget target

/-- A routing table as partitioning relies on it. -/
structure WellFormed (t : ExportsTable) : Prop where
  exact : Consists IsExactKey (fun target => target.IsPath ∧ target.IsNormal) t.exact
  patterns : Consists IsPatternKey Target.IsNormal t.patterns
  /-- No text is a destination in both halves. -/
  disjoint : ∀ d p, t.exact.contains d → t.patterns.contains p → p.text ≠ d

section Consists

variable {κ : Type} [Ord κ] [Std.TransOrd κ] [Std.LawfulEqOrd κ] {IsKey : κ → Prop}
  {IsTarget : Target → Prop} {m : SortedMap κ Entry} {k : κ} {e : Entry}

omit [Std.TransOrd κ] [Std.LawfulEqOrd κ] in
theorem consists_empty : Consists IsKey IsTarget (.empty : SortedMap κ Entry) where
  key _ _ h := nomatch h
  nonempty _ _ h := nomatch h
  target _ _ h := nomatch h

omit [Std.TransOrd κ] [Std.LawfulEqOrd κ] in
theorem Consists.isKey_of_contains (h : Consists IsKey IsTarget m) (hk : m.contains k) :
    IsKey k := by
  obtain ⟨e, he⟩ := Option.isSome_iff_exists.1 hk
  exact h.key k e he

/-- **An entry with a proper key and proper targets keeps a half as it should be.** -/
theorem Consists.add (h : Consists IsKey IsTarget m) (hk : IsKey k)
    (he : ∀ c target, e.find? c = some target → IsTarget target) :
    Consists IsKey IsTarget (add m k e) := by
  rw [ExportsTable.add]
  split
  · exact h
  · next hempty =>
    -- what is found is the merged entry, or was there before
    have hfind : ∀ k' e', (m.alter k fun old => (old.getD .empty).merge e).find? k' = some e' →
        (k' = k ∧ e' = ((m.find? k).getD .empty).merge e) ∨ m.find? k' = some e' := by
      intro k' e' h'
      rw [SortedMap.find?_alter] at h'
      split at h'
      · next heq => exact .inl ⟨Std.LawfulEqCmp.eq_of_compare heq, (Option.some.inj h').symm⟩
      · exact .inr h'
    constructor
    · intro k' e' h'
      rcases hfind k' e' h' with ⟨rfl, -⟩ | hold
      · exact hk
      · exact h.key k' e' hold
    · intro k' e' h'
      rcases hfind k' e' h' with ⟨-, rfl⟩ | hold
      · obtain ⟨c, hc⟩ := Entry.not_isEmpty_iff.1 hempty
        exact Entry.not_isEmpty_iff.2 ⟨c, by rw [Entry.find?_merge, Option.isSome_or, hc, Bool.or_true]⟩
      · exact h.nonempty k' e' hold
    · intro k' e' h' c target htarget
      rcases hfind k' e' h' with ⟨-, rfl⟩ | hold
      · rw [Entry.find?_merge, Option.or_eq_some_iff] at htarget
        rcases htarget with htarget | ⟨-, htarget⟩
        · cases hm : m.find? k with
          | none =>
            rw [hm] at htarget
            cases htarget
          | some old =>
            rw [hm] at htarget
            exact h.target k old hm c target htarget
        · exact he c target htarget
      · exact h.target k' e' hold c target htarget

end Consists

variable {t : ExportsTable} {d : String} {p : Pattern} {e : Entry}

/-- The keys of the halves keep them apart. -/
theorem ne_of_isKey (hd : IsExactKey d) (hp : IsPatternKey p) : p.text ≠ d := by
  rintro rfl
  have hstar : '*' ∈ p.text.toList := List.count_pos_iff.1 (by rw [hp.2]; exact Nat.one_pos)
  exact hd.2 '*' (by decide) hstar

theorem WellFormed.of_consists
    (hexact : Consists IsExactKey (fun target => target.IsPath ∧ target.IsNormal) t.exact)
    (hpatterns : Consists IsPatternKey Target.IsNormal t.patterns) : t.WellFormed where
  exact := hexact
  patterns := hpatterns
  disjoint _ _ hd hp :=
    ne_of_isKey (hexact.isKey_of_contains hd) (hpatterns.isKey_of_contains hp)

theorem wellFormed_empty : ({} : ExportsTable).WellFormed :=
  .of_consists consists_empty consists_empty

theorem WellFormed.addExact (h : t.WellFormed) (hd : IsExactKey d)
    (he : ∀ c target, e.find? c = some target → target.IsPath ∧ target.IsNormal) :
    (t.addExact d e).WellFormed := by
  rw [addExact_eq]
  exact .of_consists (h.exact.add hd he) h.patterns

theorem WellFormed.addPattern (h : t.WellFormed) (hp : IsPatternKey p)
    (he : ∀ c target, e.find? c = some target → target.IsNormal) :
    (t.addPattern p e).WellFormed := by
  rw [addPattern_eq]
  exact .of_consists h.exact (h.patterns.add hp he)

end ExportsTable

/-! ### Resolution -/

namespace Resolution

open ExportsTable (IsExactKey IsPatternKey WellFormed wellFormed_empty)

variable {root : Path} {texts : List (Condition × String)} {c : Condition} {target : Target}
  {r : Resolution}

theorem isNormal_of_find?_exactEntry (h : (exactEntry root texts).find? c = some target) :
    target.IsPath ∧ target.IsNormal := by
  obtain ⟨t, ht, rfl⟩ := Entry.exists_mem_of_find?_ofList h
  obtain ⟨x, -, rfl⟩ := List.mem_map.1 ht
  exact ⟨⟨_, rfl⟩, isNormal_exactTarget root x.2⟩

theorem isNormal_of_find?_patternEntry (h : (patternEntry root texts).find? c = some target) :
    target.IsNormal := by
  obtain ⟨t, ht, rfl⟩ := Entry.exists_mem_of_find?_ofList h
  obtain ⟨x, -, hx⟩ := List.mem_filterMap.1 ht
  obtain ⟨target, htarget, rfl⟩ := Option.map_eq_some_iff.1 hx
  cases hok : patternTarget root x.2 with
  | error e =>
    rw [hok] at htarget
    cases htarget
  | ok target' =>
    rw [hok] at htarget
    obtain rfl : target' = target := Option.some.inj htarget
    exact (patternTarget_eq_ok_iff.1 hok).isNormal

theorem isExactKey_of_not_isGlob {key : String} (hsub : isSubpath key) (hglob : isGlob key = false) :
    IsExactKey key := by
  refine ⟨of_decide_eq_true hsub, fun c hc hmem => ?_⟩
  have hany : isGlob key = true := List.any_eq_true.2 ⟨c, hmem, decide_eq_true hc⟩
  rw [hglob] at hany
  cases hany

theorem isPatternKey_of_parse {key : String} {p : Pattern} (hsub : isSubpath key)
    (h : Pattern.parse key = .ok p) : IsPatternKey p := by
  obtain ⟨hcount, rfl⟩ := Pattern.parse_eq_ok_iff.1 h
  exact ⟨of_decide_eq_true hsub, hcount⟩

/-- **A member of an `exports` object keeps the table well formed**, whatever it says. -/
theorem wellFormed_addDestination (h : r.table.WellFormed) (moduleType : ModuleType)
    (key : String) (value : Json) :
    (addDestination moduleType root r key value).table.WellFormed := by
  rw [addDestination]
  cases hsub : isSubpath key with
  | false => exact h
  | true =>
    cases hglob : isGlob key with
    | false =>
      exact h.addExact (isExactKey_of_not_isGlob hsub hglob)
        fun _ _ => isNormal_of_find?_exactEntry
    | true =>
      cases hparse : Pattern.parse key with
      | error e => exact h
      | ok p =>
        exact h.addPattern (isPatternKey_of_parse hsub hparse)
          fun _ _ => isNormal_of_find?_patternEntry

theorem wellFormed_foldl (h : r.table.WellFormed) (moduleType : ModuleType)
    (members : List (String × Json)) :
    (members.foldl (fun r m => addDestination moduleType root r m.1 m.2) r).table.WellFormed := by
  induction members generalizing r with
  | nil => exact h
  | cons m rest ih => exact ih (wellFormed_addDestination h moduleType m.1 m.2)

theorem wellFormed_atRoot (root : Path) (texts : List (Condition × String)) :
    (atRoot (exactEntry root texts)).table.WellFormed :=
  wellFormed_empty.addExact (isExactKey_of_not_isGlob (by decide) (by decide)) fun _ _ =>
    isNormal_of_find?_exactEntry

theorem wellFormed_ofMembers (moduleType : ModuleType) (root : Path)
    (members : List (String × Json)) :
    (ofMembers moduleType root members).table.WellFormed := by
  rw [ofMembers]
  split
  · exact wellFormed_atRoot root _
  · exact wellFormed_foldl wellFormed_empty moduleType members

/-- **Every manifest has a well-formed table.** -/
theorem wellFormed_ofManifest (m : Manifest) (root : Path) :
    (ofManifest m root).table.WellFormed := by
  unfold ofManifest
  -- the five shapes of `exports`, and the values that are none of them
  split
  · exact wellFormed_atRoot root _
  · exact wellFormed_atRoot root _
  · exact wellFormed_atRoot root _
  · exact wellFormed_atRoot root _
  · exact wellFormed_ofMembers _ root _
  · exact wellFormed_empty

end Resolution

/-- **Every JSON object is a manifest, and the routing table of its package is well formed**: its
destinations are texts that start with a dot and have no glob character, or patterns that start with
a dot and have a single wildcard; no text is both, and none is without a target.  A destination that
is taken as it is has paths as targets.  Every path is its own normal form, and every pattern has
one wildcard and the text of a normal form. -/
theorem Package.exports_wellFormed (members : List (String × Json)) (location : Path) :
    ∃ m, Manifest.ofJson? (.object members) = some m ∧
      (Package.ofManifest m location).1.exports.WellFormed :=
  ⟨_, rfl, Resolution.wellFormed_ofManifest _ _⟩

end PackageRouting
