/-
PackageRouting/Proofs/Path/Spelling.lean

What does not depend on the spelling of a path.

Two spellings of one path have the same components, so whatever is computed
from the components is the same for both: the normal form, the text with single
slashes, and the modules that a path names.  Joining and taking the parent work
on texts; they are nevertheless operations on components (`components_join`,
`components_join_names`, `components_parent`), so they agree on spellings of one
path too.
-/
import PackageRouting.Path.Module
import PackageRouting.Proofs.Path.Segments

namespace PackageRouting

namespace Path

variable {p q r : Path}

/-! ### Spellings of one path -/

theorem equiv_refl (p : Path) : p ≈ p := rfl

theorem equiv_symm (h : p ≈ q) : q ≈ p := Eq.symm h

theorem equiv_trans (h : p ≈ q) (h' : q ≈ r) : p ≈ r := Eq.trans h h'

theorem normalize_congr (h : p ≈ q) : p.normalize = q.normalize := by
  rw [normalize, normalize, show p.components = q.components from h]

theorem toSlash_congr (h : p ≈ q) : p.toSlash = q.toSlash := by
  rw [toSlash, toSlash, show p.components = q.components from h]

/-- **Spellings of a candidate name the same modules.** -/
theorem sameModule_congr (h : p ≈ q) (target : Path) :
    p.sameModule target = q.sameModule target := by
  have hiff : p ≈ target ↔ q ≈ target :=
    ⟨fun ht => equiv_trans (equiv_symm h) ht, fun ht => equiv_trans h ht⟩
  simp only [sameModule, hiff, toSlash_congr h]

/-! ### Joining -/

/-- The components of a join with a relative path: those of the base, and those that the pieces of
the relative path stand for behind a slash. -/
theorem components_join {base rel : Path} (hrel : rel.text.toList.head? ≠ some '/')
    (hbase : base.text ≠ "") :
    (base.join rel).components =
      base.components ++ rel.segments.filterMap laterComponent? := by
  rw [join, if_neg hrel]
  by_cases hslash : base.text.toList.getLast? = some '/'
  · -- the slash at the end shows in no component of the base
    obtain ⟨front, hfront⟩ : ∃ front : String, base.text = front ++ "/" :=
      Text.getLast?_eq_some_iff.1 hslash
    have hcomp : base.components = steps (⟨front⟩ : Path).segments := by
      have hpath : base = ⟨front ++ "/" ++ ""⟩ := by
        rw [String.append_empty, ← hfront]
      rw [hpath, components_append_slash]
      simp [segments, laterComponent?]
    rw [if_pos (by simp [hslash]), hcomp, hfront, components_append_slash]
  · rw [if_neg (by simp [hslash, hbase]), components_append_slash, components_eq_steps hbase]

/-- Joining adds slashes. -/
theorem mem_text_join {base rel : Path} {c : Char} (h : c ∈ (base.join rel).text.toList) :
    c = '/' ∨ c ∈ base.text.toList ∨ c ∈ rel.text.toList := by
  unfold join at h
  split at h
  · exact .inr (.inr h)
  · split at h
    · simp only [String.toList_append, List.mem_append] at h
      exact .inr h
    · have hslash : "/".toList = ['/'] := rfl
      simp only [String.toList_append, List.mem_append, hslash, List.mem_singleton] at h
      rcases h with (h | h) | h
      · exact .inr (.inl h)
      · exact .inl h
      · exact .inr (.inr h)

/-- A path that starts with a slash starts at the root. -/
theorem root_mem_components (h : p.text.toList.head? = some '/') :
    Component.root ∈ p.components := by
  obtain ⟨rest, hrest⟩ := List.head?_eq_some_iff.1 h
  have hpath : p = ⟨"" ++ "/" ++ String.ofList rest⟩ := by
    rw [← show (⟨p.text⟩ : Path) = p from rfl]
    congr 1
    rw [← String.toList_inj, hrest]
    simp
  rw [hpath, components_append_slash]
  exact List.mem_append_left _ List.mem_cons_self

/-- The pieces of a path of names stand for the names, wherever the path stands. -/
theorem filterMap_laterComponent?_segments (h : ∀ c ∈ p.components, c.isName) :
    p.segments.filterMap laterComponent? = p.components := by
  by_cases hp : p.text = ""
  · rw [segments_eq_empty_iff.2 hp, components_of_text_eq_empty hp]
    rfl
  · rw [components_eq_steps hp] at h ⊢
    cases hs : p.segments with
    | nil => rfl
    | cons first rest =>
      rw [hs] at h
      -- neither the root nor a `.` is a name
      have hfirst : ∀ c, firstComponent? true first = some c → c.isName := by
        intro c hc
        apply h
        rw [steps, hc]
        exact List.mem_append_left _ (List.mem_singleton_self c)
      have hempty : first ≠ "" := by
        rintro rfl
        cases hfirst _ rfl
      have hdot : first ≠ "." := by
        rintro rfl
        cases hfirst _ rfl
      rw [steps, firstComponent?_eq_laterComponent? hempty hdot, List.filterMap_cons]
      cases laterComponent? first <;> rfl

/-- **Joining a path of names puts the names behind the components of the base.** -/
theorem components_join_names {base rel : Path} (h : ∀ c ∈ rel.components, c.isName) :
    (base.join rel).components = base.components ++ rel.components := by
  have hrel : rel.text.toList.head? ≠ some '/' := by
    intro hslash
    cases h _ (root_mem_components hslash)
  by_cases hbase : base.text = ""
  · have hjoin : base.join rel = rel := by
      rw [join, if_neg hrel, if_pos (by simp [hbase]), hbase, String.empty_append]
    rw [hjoin, components_of_text_eq_empty hbase, List.nil_append]
  · rw [components_join hrel hbase, filterMap_laterComponent?_segments h]

theorem join_congr (h : p ≈ q) (rel : Path) : p.join rel ≈ q.join rel := by
  have hempty : p.text = "" ↔ q.text = "" := by
    rw [← components_eq_nil_iff, ← components_eq_nil_iff, show p.components = q.components from h]
  by_cases hrel : rel.text.toList.head? = some '/'
  · rw [join, join, if_pos hrel, if_pos hrel]
  · by_cases hp : p.text = ""
    · have hq := hempty.1 hp
      rw [join, join, if_neg hrel, if_neg hrel, hp, hq]
    · have hq : q.text ≠ "" := fun hq => hp (hempty.2 hq)
      show (p.join rel).components = (q.join rel).components
      rw [components_join hrel hp, components_join hrel hq, show p.components = q.components from h]

/-! ### The parent -/

/-- Dropping blank pieces at the end changes no component. -/
theorem steps_dropBlank (l : List String) : steps (dropBlank l).reverse = steps l.reverse := by
  induction l with
  | nil => rfl
  | cons s rest ih =>
    cases rest with
    | nil => rfl
    | cons t rest =>
      rw [dropBlank]
      split
      · next hs =>
        have hlater : laterComponent? s = none := by
          rcases (by simpa [isBlank] using hs : s = "" ∨ s = ".") with rfl | rfl <;> rfl
        rw [ih, List.reverse_cons (a := s), steps_append (by simp)]
        simp [hlater]
      · rfl
      · simp

theorem dropBlank_ne_nil {l : List String} (h : l ≠ []) : dropBlank l ≠ [] := by
  induction l with
  | nil => exact absurd rfl h
  | cons s rest ih =>
    cases rest with
    | nil => simp [dropBlank]
    | cons t rest =>
      rw [dropBlank]
      split
      · exact ih (by simp)
      · simp
      · simp

theorem dropBlank_subset {l : List String} {s : String} (h : s ∈ dropBlank l) : s ∈ l := by
  induction l with
  | nil => exact h
  | cons t rest ih =>
    cases rest with
    | nil => exact h
    | cons u rest =>
      rw [dropBlank] at h
      split at h
      · exact List.mem_cons_of_mem _ (ih h)
      · exact h
      · simp

/-- A last piece that was not dropped stands for a component. -/
theorem isSome_laterComponent?_of_dropBlank {l rest : List String} {s t : String}
    (h : dropBlank l = s :: t :: rest) : (laterComponent? s).isSome := by
  induction l with
  | nil => cases h
  | cons u others ih =>
    cases others with
    | nil => simp [dropBlank] at h
    | cons v others =>
      rw [dropBlank] at h
      split at h
      · exact ih h
      · next hs =>
        obtain ⟨rfl, -⟩ := List.cons.inj h
        unfold laterComponent?
        split <;> simp_all [isBlank]
      · simp

/-- The text of pieces that are given last first has their components; a lone empty piece is the
root. -/
theorem components_unsplit {l : List String} (hl : l ≠ []) (h : ∀ s ∈ l, '/' ∉ s.toList) :
    (⟨unsplit l⟩ : Path).components = steps l.reverse := by
  unfold unsplit
  split
  · rfl
  · next hne =>
    refine components_intercalate (by simpa using hl) ?_ (by simpa using h)
    intro heq
    exact hne (by simpa using congrArg List.reverse heq)

theorem parent?_of_root (h : dropBlank p.segments.reverse = [""]) : p.parent? = none := by
  rw [parent?, h]
  rfl

theorem parent?_of_single {s : String} (h : dropBlank p.segments.reverse = [s]) (hs : s ≠ "") :
    p.parent? = some ⟨""⟩ := by
  rw [parent?, h]
  split <;> simp_all

theorem parent?_of_cons {s t : String} {rest : List String}
    (h : dropBlank p.segments.reverse = s :: t :: rest) :
    p.parent? = some ⟨unsplit (dropBlank (t :: rest))⟩ := by
  rw [parent?, h]
  split <;> simp_all

/-- **The parent drops the last component**; the paths without a parent have at most one. -/
theorem components_parent (p : Path) :
    (p.parent?.getD ⟨""⟩).components = p.components.dropLast := by
  by_cases hp : p.text = ""
  · have hnone : p.parent? = none := by
      apply parent?_of_root
      rw [segments_eq_empty_iff.2 hp]
      rfl
    rw [hnone, components_of_text_eq_empty hp]
    rfl
  have hsteps : p.components = steps (dropBlank p.segments.reverse).reverse := by
    rw [components_eq_steps hp, steps_dropBlank, List.reverse_reverse]
  have hpieces : ∀ s ∈ dropBlank p.segments.reverse, '/' ∉ s.toList := fun s hs =>
    not_mem_of_mem_segments (List.mem_reverse.1 (dropBlank_subset hs))
  cases hd : dropBlank p.segments.reverse with
  | nil => exact absurd hd (dropBlank_ne_nil (by simpa using segments_ne_nil p))
  | cons s rest =>
    rw [hd] at hpieces hsteps
    cases rest with
    | nil =>
      -- a single piece stands for a single component, the root if it is empty
      obtain ⟨c, hc⟩ := Option.isSome_iff_exists.1 (isSome_firstComponent? s)
      have hsingle : p.components.dropLast = [] := by simp [hsteps, steps, hc]
      rw [hsingle]
      by_cases hs : s = ""
      · rw [parent?_of_root (by rw [hd, hs])]
        rfl
      · rw [parent?_of_single hd hs]
        rfl
    | cons t rest =>
      -- the last piece stands for the last component, and the pieces before it for the others
      obtain ⟨c, hc⟩ := Option.isSome_iff_exists.1 (isSome_laterComponent?_of_dropBlank hd)
      have hrest : ∀ u ∈ dropBlank (t :: rest), '/' ∉ u.toList := fun u hu =>
        hpieces u (List.mem_cons_of_mem _ (dropBlank_subset hu))
      rw [parent?_of_cons hd, Option.getD_some,
        components_unsplit (dropBlank_ne_nil (by simp)) hrest, steps_dropBlank, hsteps,
        List.reverse_cons (a := s), steps_append (by simp)]
      simp [hc]

theorem parent_congr (h : p ≈ q) : p.parent?.getD ⟨""⟩ ≈ q.parent?.getD ⟨""⟩ := by
  show (p.parent?.getD ⟨""⟩).components = (q.parent?.getD ⟨""⟩).components
  rw [components_parent, components_parent, show p.components = q.components from h]

end Path

end PackageRouting
