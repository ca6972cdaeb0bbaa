/-
PackageRouting/Proofs/Path/Below.lean

Paths below a directory, after folding.

What is not a name stays in a normal form once it is there, so components that
fold to names never take away what stands in front of them
(`foldl_pushNormal_append`).  A relative path stays inside if it folds to names;
these are the paths that lead nowhere but into a directory, whichever it is
(`staysInside_iff`).  The other way round, a name is folded away unless what
follows it folds to names.

Main results: `isName_of_name_mem`, `isWithin_join` and `isBelow_join_iff`.
-/
import PackageRouting.Proofs.Path.Join

namespace PackageRouting

namespace Component

variable {cs ds acc top : List Component} {c d : Component}

/-! ### Folding on top of a stack -/

/-- A step that leaves names on the stack takes nothing from below them. -/
theorem pushNormal_append (h : ∀ d ∈ pushNormal top c, d.isName) :
    pushNormal (top ++ acc) c = pushNormal top c ++ acc := by
  cases c with
  | root => cases h root (root_mem_pushNormal top)
  | here => cases top <;> cases acc <;> simp [pushNormal]
  | name t => simp [pushNormal]
  | up =>
    cases top with
    | nil => cases h up List.mem_cons_self
    | cons d rest =>
      cases d with
      | name t => rfl
      | root => cases h root List.mem_cons_self
      | here => cases h up List.mem_cons_self
      | up => cases h up List.mem_cons_self

theorem foldl_pushNormal_append (h : ∀ d ∈ cs.foldl pushNormal top, d.isName) :
    cs.foldl pushNormal (top ++ acc) = cs.foldl pushNormal top ++ acc := by
  induction cs generalizing top with
  | nil => rfl
  | cons c rest ih =>
    have hpush : ∀ d ∈ pushNormal top c, d.isName := by
      intro d hd
      refine Decidable.byContradiction fun hname => hname ?_
      rw [List.foldl_cons] at h
      exact h d (mem_foldl_pushNormal_of_mem hd hname)
    rw [List.foldl_cons, List.foldl_cons, pushNormal_append hpush, ih h]

/-- **Components that fold to names are folded by themselves**, whatever stands in front. -/
theorem normalForm_append (h : ∀ d ∈ normalForm ds, d.isName) :
    normalForm (cs ++ ds) = normalForm cs ++ normalForm ds := by
  have hnames : ∀ d ∈ ds.foldl pushNormal [], d.isName :=
    fun d hd => h d (List.mem_reverse.2 hd)
  have happend : ds.foldl pushNormal (cs.foldl pushNormal []) =
      ds.foldl pushNormal [] ++ cs.foldl pushNormal [] := foldl_pushNormal_append hnames
  rw [normalForm, List.foldl_append, happend, List.reverse_append, ← normalForm, ← normalForm]

/-! ### Names that are not folded away -/

/-- On top of names there are names, or else some step up finds none of them. -/
theorem isName_or_emptied (htop : ∀ d ∈ top, d.isName) (hroot : root ∉ cs) :
    (∀ d ∈ cs.foldl pushNormal top, d.isName) ∨
      ∃ cs₁ cs₂, cs = cs₁ ++ up :: cs₂ ∧ cs₁.foldl pushNormal top = [] := by
  induction cs generalizing top with
  | nil => exact .inl htop
  | cons c rest ih =>
    have hnext : (∀ d ∈ pushNormal top c, d.isName) →
        (∀ d ∈ (c :: rest).foldl pushNormal top, d.isName) ∨
          ∃ cs₁ cs₂, c :: rest = cs₁ ++ up :: cs₂ ∧ cs₁.foldl pushNormal top = [] := by
      intro hpush
      rcases ih hpush fun h => hroot (List.mem_cons_of_mem _ h) with hnames | ⟨cs₁, cs₂, rfl, hempty⟩
      · exact .inl hnames
      · exact .inr ⟨c :: cs₁, cs₂, rfl, hempty⟩
    cases c with
    | root => exact absurd List.mem_cons_self hroot
    | here => exact hnext fun d hd => htop d (by cases top <;> exact hd)
    | name t => exact hnext (by simpa [pushNormal, isName] using htop)
    | up =>
      cases top with
      | nil => exact .inr ⟨[], rest, rfl, rfl⟩
      | cons d top =>
        cases d with
        | name t => exact hnext fun d hd => htop d (List.mem_cons_of_mem _ hd)
        | _ => cases htop _ List.mem_cons_self

/-- **Behind a name that is not folded away, everything folds to names.** -/
theorem isName_of_name_mem {t : String} (hcs : name t ∉ cs) (hds : name t ∉ ds)
    (hroot : root ∉ ds) (h : name t ∈ normalForm (cs ++ name t :: ds)) :
    ∀ d ∈ normalForm ds, d.isName := by
  have hnil : ∀ d ∈ ([] : List Component), d.isName := by simp
  rcases isName_or_emptied hnil hroot with hnames | ⟨ds₁, ds₂, rfl, hempty⟩
  · exact fun d hd => hnames d (List.mem_reverse.1 hd)
  -- the name is on top of the stack again when the step up comes
  have hstack : ds₁.foldl pushNormal (name t :: cs.foldl pushNormal []) =
      name t :: cs.foldl pushNormal [] := by
    have happend : ds₁.foldl pushNormal ([] ++ name t :: cs.foldl pushNormal []) =
        ds₁.foldl pushNormal [] ++ name t :: cs.foldl pushNormal [] :=
      foldl_pushNormal_append (by simp [hempty])
    rwa [hempty] at happend
  have hpush : pushNormal (cs.foldl pushNormal []) (name t) = name t :: cs.foldl pushNormal [] := by
    simp [pushNormal]
  rw [normalForm, List.mem_reverse, List.foldl_append, List.foldl_cons, hpush, List.foldl_append,
    hstack] at h
  replace h : name t ∈ ds₂.foldl pushNormal (cs.foldl pushNormal []) := h
  rcases mem_of_mem_foldl_pushNormal h with h | h
  · exact absurd (by simp [h]) hds
  · rcases mem_of_mem_foldl_pushNormal h with h | h
    · exact absurd h hcs
    · cases h

end Component

namespace Path

open Component

variable {p dir rel : Path} {name : String}

/-- After folding, the path is the directory, or the directory with names behind it. -/
def IsWithin (p dir : Path) : Prop :=
  ∃ names : List Component, (∀ c ∈ names, c.isName) ∧
    p.normalize.components = dir.normalize.components ++ names

/-- After folding, the path is the directory with names behind it. -/
def IsBelow (p dir : Path) : Prop :=
  ∃ names : List Component, names ≠ [] ∧ (∀ c ∈ names, c.isName) ∧
    p.normalize.components = dir.normalize.components ++ names

/-- The path folds to names. -/
def StaysInside (p : Path) : Prop := ∀ c ∈ p.normalize.components, c.isName

instance (p : Path) : Decidable p.StaysInside :=
  inferInstanceAs (Decidable (∀ c ∈ p.normalize.components, c.isName))

/-! ### Joining -/

theorem StaysInside.root_notMem (h : rel.StaysInside) : Component.root ∉ rel.components := by
  intro hroot
  rw [StaysInside, components_normalize] at h
  cases h root (root_mem_normalForm hroot)

theorem normalForm_components_join (h : rel.StaysInside) (dir : Path) :
    normalForm (dir.join rel).components =
      normalForm dir.components ++ normalForm rel.components := by
  have hnames := h
  rw [StaysInside, components_normalize] at hnames
  rw [normalForm_components_join_relative h.root_notMem, normalForm_append hnames]

/-- **A path that stays inside leads into every directory.** -/
theorem isWithin_join (h : rel.StaysInside) (dir : Path) : (dir.join rel).IsWithin dir := by
  refine ⟨normalForm rel.components, ?_, ?_⟩
  · rwa [StaysInside, components_normalize] at h
  · rw [components_normalize, components_normalize, normalForm_components_join h]

/-- **No other path leads into every directory.** -/
theorem staysInside_iff : rel.StaysInside ↔ ∀ dir : Path, (dir.join rel).IsWithin dir := by
  refine ⟨isWithin_join, fun h => ?_⟩
  -- seen from the empty path, a path is itself
  have hjoin : (⟨""⟩ : Path).join rel = rel := by
    rw [join]
    split
    · rfl
    · exact congrArg mk String.empty_append
  obtain ⟨names, hnames, hcomp⟩ := h ⟨""⟩
  rw [hjoin, show (⟨""⟩ : Path).normalize.components = [] from rfl, List.nil_append] at hcomp
  rw [StaysInside, hcomp]
  exact hnames

/-- **A single name stands below a directory iff what it is joined to is within it.** -/
theorem isBelow_join_iff (h : (⟨name⟩ : Path).components = [.name name]) :
    (p.join ⟨name⟩).IsBelow dir ↔ p.IsWithin dir := by
  have hstays : (⟨name⟩ : Path).StaysInside := by
    rw [StaysInside, components_normalize, h]
    simp [normalForm, pushNormal, isName]
  have hjoin : (p.join ⟨name⟩).normalize.components =
      p.normalize.components ++ [.name name] := by
    rw [components_normalize, components_normalize, normalForm_components_join hstays, h]
    rfl
  constructor
  · rintro ⟨names, hne, hnames, heq⟩
    -- the name in question is the last one
    obtain ⟨front, last, rfl⟩ := (List.eq_nil_or_concat names).resolve_left hne
    rw [List.concat_eq_append] at hnames heq
    rw [hjoin, ← List.append_assoc] at heq
    obtain ⟨hfront, -⟩ := List.append_inj' heq rfl
    exact ⟨front, fun c hc => hnames c (List.mem_append_left _ hc), hfront⟩
  · rintro ⟨names, hnames, heq⟩
    refine ⟨names ++ [.name name], by simp, ?_, by rw [hjoin, heq, List.append_assoc]⟩
    intro c hc
    rcases List.mem_append.1 hc with hc | hc
    · exact hnames c hc
    · obtain rfl := List.mem_singleton.1 hc
      rfl

end Path

end PackageRouting
