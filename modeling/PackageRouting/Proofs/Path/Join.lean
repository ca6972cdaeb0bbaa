/-
PackageRouting/Proofs/Path/Join.lean

Joining and folding.

Components may be folded before they are put on a stack, or on it one by one
(`foldl_normalForm`): a step up that is left over by folding is still there to
take a name from the stack.  So each side of a join may be folded first, and
joining, which is associative (`join_assoc`), is so on normal forms too.

Main result: `normalize_canonical`.
-/
import Mathlib.Data.List.Induction
import PackageRouting.Proofs.Path.Normal

namespace PackageRouting

namespace Component

variable {cs ds acc stack : List Component} {c d : Component}

/-! ### Folding a part first -/

/-- A component that is folded into a stack before the stack is put on another, or after. -/
theorem foldl_reverse_pushNormal (hstack : root ∉ stack) (hc : c ≠ root) :
    (pushNormal stack c).reverse.foldl pushNormal acc =
      pushNormal (stack.reverse.foldl pushNormal acc) c := by
  have hcons : (c :: stack).reverse.foldl pushNormal acc =
      pushNormal (stack.reverse.foldl pushNormal acc) c := by
    rw [List.reverse_cons, List.foldl_append]
    rfl
  cases c with
  | root => exact absurd rfl hc
  | here => cases stack <;> simp [pushNormal]
  | name t =>
    rw [← hcons]
    cases stack <;> simp [pushNormal]
  | up =>
    cases stack with
    | nil => exact hcons
    | cons d stack =>
      cases d with
      | root => exact absurd List.mem_cons_self hstack
      | name t =>
        -- the name is put on the other stack and taken from it again
        rw [List.reverse_cons, List.foldl_append]
        simp [pushNormal]
      | here => exact hcons
      | up => exact hcons

/-- **Components come to the same on a stack when they are folded first.** -/
theorem foldl_normalForm (h : root ∉ ds) :
    (normalForm ds).foldl pushNormal acc = ds.foldl pushNormal acc := by
  induction ds using List.reverseRecOn with
  | nil => rfl
  | append_singleton ds c ih =>
    obtain ⟨hds, hc⟩ := not_or.1 (mt List.mem_append.2 h)
    have hstack : root ∉ ds.foldl pushNormal [] := fun hmem =>
      hds (mem_of_mem_normalForm (List.mem_reverse.2 hmem))
    have hne : c ≠ root := fun heq => hc (List.mem_singleton.2 heq.symm)
    calc (normalForm (ds ++ [c])).foldl pushNormal acc
        = (pushNormal (ds.foldl pushNormal []) c).reverse.foldl pushNormal acc := by
          rw [normalForm, List.foldl_append]
          rfl
      _ = pushNormal ((normalForm ds).foldl pushNormal acc) c :=
          foldl_reverse_pushNormal hstack hne
      _ = (ds ++ [c]).foldl pushNormal acc := by
          rw [ih hds, List.foldl_append]
          rfl

theorem normalForm_append_right (h : root ∉ ds) (cs : List Component) :
    normalForm (cs ++ normalForm ds) = normalForm (cs ++ ds) := by
  have hfold : (normalForm ds).foldl pushNormal (cs.foldl pushNormal []) =
      ds.foldl pushNormal (cs.foldl pushNormal []) := foldl_normalForm h
  rw [← List.foldl_append, ← List.foldl_append] at hfold
  exact congrArg List.reverse hfold

theorem normalForm_append_left (h : root ∉ cs.tail) (ds : List Component) :
    normalForm (normalForm cs ++ ds) = normalForm (cs ++ ds) := by
  have hfold : (normalForm cs).foldl pushNormal [] = cs.foldl pushNormal [] := by
    rw [← List.reverse_inj]
    exact (isNormal_normalForm h).normalForm_eq
  have happend : (normalForm cs ++ ds).foldl pushNormal [] = (cs ++ ds).foldl pushNormal [] := by
    rw [List.foldl_append, List.foldl_append, hfold]
  exact congrArg List.reverse happend

/-! ### What is never folded away -/

/-- What is not a name stays on the stack. -/
theorem mem_pushNormal_of_mem (h : d ∈ acc) (hd : ¬ d.isName) (c : Component) :
    d ∈ pushNormal acc c := by
  unfold pushNormal
  split
  · exact h
  · -- only a name is taken away
    rcases List.mem_cons.1 h with rfl | h
    · exact absurd rfl hd
    · exact h
  · exact h
  · exact List.mem_cons_of_mem _ h

theorem mem_foldl_pushNormal_of_mem (h : d ∈ acc) (hd : ¬ d.isName) :
    d ∈ cs.foldl pushNormal acc := by
  induction cs generalizing acc with
  | nil => exact h
  | cons c rest ih => exact ih (mem_pushNormal_of_mem h hd c)

theorem root_mem_pushNormal (acc : List Component) : root ∈ pushNormal acc root := by
  cases acc with
  | nil => exact List.mem_cons_self
  | cons c rest => cases c <;> exact List.mem_cons_self

/-- The root is never folded away. -/
theorem root_mem_normalForm (h : root ∈ cs) : root ∈ normalForm cs := by
  obtain ⟨front, back, rfl⟩ := List.append_of_mem h
  rw [normalForm, List.mem_reverse, List.foldl_append, List.foldl_cons]
  exact mem_foldl_pushNormal_of_mem (root_mem_pushNormal _) Bool.false_ne_true

/-- Folding keeps the root and brings none. -/
theorem root_mem_normalForm_iff : root ∈ normalForm cs ↔ root ∈ cs :=
  ⟨mem_of_mem_normalForm, root_mem_normalForm⟩

end Component

namespace Path

open Component

variable {p q r base rel : Path}

/-! ### Absolute paths -/

/-- The root is read off a slash in front, and off nothing else. -/
theorem root_mem_components_iff :
    Component.root ∈ p.components ↔ p.text.toList.head? = some '/' := by
  refine ⟨fun h => ?_, root_mem_components⟩
  rw [components] at h
  cases hs : p.segments with
  | nil => exact absurd hs (segments_ne_nil p)
  | cons first rest =>
    rw [hs] at h
    have hfirst : firstComponent? (!rest.isEmpty) first = some .root :=
      Option.mem_toList.1 ((List.mem_append.1 h).resolve_right
        (root_notMem_filterMap_laterComponent? rest))
    have hempty : first = "" ∧ rest ≠ [] := by
      unfold firstComponent? at hfirst
      split at hfirst <;> simp_all
    obtain ⟨rfl, hrest⟩ := hempty
    rw [← intercalate_segments, hs, String.intercalate_cons_of_ne_nil hrest]
    simp

theorem head?_text_normalize :
    p.normalize.text.toList.head? = some '/' ↔ p.text.toList.head? = some '/' := by
  rw [← root_mem_components_iff, ← root_mem_components_iff, components_normalize,
    root_mem_normalForm_iff]

theorem join_of_absolute (h : rel.text.toList.head? = some '/') (base : Path) :
    base.join rel = rel :=
  if_pos h

/-! ### Joining in two steps -/

/-- What stands between two texts when they are joined. -/
def separator (base : Path) : String :=
  if base.text.isEmpty || base.text.toList.getLast? = some '/' then "" else "/"

theorem text_join (h : rel.text.toList.head? ≠ some '/') (base : Path) :
    (base.join rel).text = base.text ++ base.separator ++ rel.text := by
  rw [join, if_neg h, separator]
  split <;> simp

/-- A text that was joined to another keeps its end. -/
theorem separator_join (h : rel.text.toList.head? ≠ some '/') (base : Path) :
    (base.join rel).separator = rel.separator := by
  by_cases hrel : rel.text = ""
  · -- nothing follows the separator, which ends in a slash unless none is needed
    have htext := text_join h base
    rw [hrel, String.append_empty] at htext
    rw [separator, separator, htext, hrel]
    by_cases hneeded : base.text.isEmpty || base.text.toList.getLast? = some '/'
    · rw [separator, if_pos hneeded, String.append_empty, if_pos hneeded]
      rfl
    · rw [separator, if_neg hneeded]
      simp
  · have hne : rel.text.toList ≠ [] := mt String.toList_eq_nil_iff.1 hrel
    have hlast : (base.join rel).text.toList.getLast? = rel.text.toList.getLast? := by
      rw [text_join h, String.toList_append, List.getLast?_append,
        List.getLast?_eq_some_getLast hne]
      rfl
    have htext : (base.join rel).text ≠ "" := by
      rw [text_join h]
      simp [hrel]
    rw [separator, separator, hlast]
    simp [htext, hrel]

theorem head?_text_join (hrel : rel.text.toList.head? ≠ some '/')
    (hbase : base.text.toList.head? ≠ some '/') : (base.join rel).text.toList.head? ≠ some '/' := by
  rw [text_join hrel]
  by_cases hempty : base.text = ""
  · simpa [separator, hempty] using hrel
  · obtain ⟨a, text, htext⟩ := List.exists_cons_of_ne_nil (mt String.toList_eq_nil_iff.1 hempty)
    simpa [htext] using hbase

/-- **Joining is associative**, spelling and all. -/
theorem join_assoc (p q r : Path) : (p.join q).join r = p.join (q.join r) := by
  by_cases hr : r.text.toList.head? = some '/'
  · rw [join_of_absolute hr, join_of_absolute hr, join_of_absolute hr]
  by_cases hq : q.text.toList.head? = some '/'
  · have hjoin : (q.join r).text.toList.head? = some '/' := by
      obtain ⟨text, htext⟩ := List.head?_eq_some_iff.1 hq
      simp [text_join hr, htext]
    rw [join_of_absolute hq, join_of_absolute hjoin]
  · have htext : ((p.join q).join r).text = (p.join (q.join r)).text := by
      rw [text_join hr, separator_join hq, text_join hq, text_join (head?_text_join hr hq),
        text_join hr]
      simp only [String.append_assoc]
    exact congrArg mk htext

/-! ### Folding joined paths -/

/-- Behind a slash, the pieces of a relative path fold to what the path folds to. -/
theorem normalForm_filterMap_segments (h : Component.root ∉ rel.components) :
    normalForm (rel.segments.filterMap laterComponent?) = normalForm rel.components := by
  by_cases hrel : rel.text = ""
  · rw [segments_eq_empty_iff.2 hrel, components_of_text_eq_empty hrel]
    rfl
  rw [components_eq_steps hrel] at h ⊢
  cases hs : rel.segments with
  | nil => rfl
  | cons first rest =>
    rw [hs] at h
    by_cases hempty : first = ""
    · -- an empty piece in front is the root
      subst hempty
      exact absurd List.mem_cons_self h
    by_cases hdot : first = "."
    · -- a leading `.` is dropped by folding
      subst hdot
      rfl
    · rw [steps, firstComponent?_eq_laterComponent? hempty hdot, List.filterMap_cons]
      cases laterComponent? first <;> rfl

/-- Joined to a directory, a relative path folds to what the components of both fold to. -/
theorem normalForm_components_join_relative (h : Component.root ∉ rel.components) (base : Path) :
    normalForm (base.join rel).components = normalForm (base.components ++ rel.components) := by
  have hrel : rel.text.toList.head? ≠ some '/' := mt root_mem_components h
  by_cases hbase : base.text = ""
  · have hjoin : base.join rel = rel := by
      rw [join, if_neg hrel, if_pos (by simp [hbase]), hbase, String.empty_append]
    rw [hjoin, components_of_text_eq_empty hbase]
    rfl
  · rw [components_join hrel hbase,
      ← normalForm_append_right (root_notMem_filterMap_laterComponent? _),
      normalForm_filterMap_segments h, normalForm_append_right h]

/-- **Both sides of a join may be folded first.** -/
theorem normalize_join_normalize (p q : Path) :
    (p.normalize.join q.normalize).normalize = (p.join q).normalize := by
  by_cases hq : q.text.toList.head? = some '/'
  · rw [join_of_absolute hq, join_of_absolute (head?_text_normalize.2 hq), normalize_normalize]
  · have hroot : Component.root ∉ q.components := mt root_mem_components_iff.1 hq
    have hroot' : Component.root ∉ q.normalize.components :=
      mt root_mem_components_iff.1 (mt head?_text_normalize.1 hq)
    have hfold : normalForm (p.normalize.join q.normalize).components =
        normalForm (p.join q).components := by
      rw [normalForm_components_join_relative hroot', normalForm_components_join_relative hroot,
        components_normalize, components_normalize,
        normalForm_append_left (wellFormed_components p).root_notMem_tail,
        normalForm_append_right hroot]
    rw [normalize, hfold, ← normalize]

theorem isFolded_iff : p.IsFolded ↔ IsNormal p.components := by
  have hnormal : IsNormal (normalForm p.components) :=
    isNormal_normalForm (wellFormed_components p).root_notMem_tail
  have hiff : p.IsFolded ↔ normalForm p.components = p.components := by
    rw [← components_normalize]
    exact Iff.rfl
  rw [hiff]
  exact ⟨fun h => h ▸ hnormal, IsNormal.normalForm_eq⟩

theorem joinNormalized_normalize (p q : Path) :
    p.normalize.joinNormalized q = p.joinNormalized q := by
  rw [joinNormalized, ← normalize_join_normalize, normalize_normalize, normalize_join_normalize,
    ← joinNormalized]

theorem joinNormalized_joinNormalized (p q r : Path) :
    (p.joinNormalized q).joinNormalized r = ((p.join q).join r).normalize :=
  joinNormalized_normalize (p.join q) r

/-- **Folding gives the one normal form of a path, and goes along with joining**: it folds what is
not a root and names, or steps up and names, and nothing else; joining normal forms comes to the
normal form of the join, whatever the second path is, so that of the base of a join only the normal
form counts, and two joins are one. -/
theorem normalize_canonical (p q r : Path) :
    IsNormal p.normalize.components ∧ p.normalize.normalize = p.normalize ∧
      (p.normalize ≈ p ↔ IsNormal p.components) ∧
      (p.join q).normalize = (p.normalize.join q.normalize).normalize ∧
      p.joinNormalized q = p.normalize.joinNormalized q ∧
      (p.joinNormalized q).joinNormalized r = ((p.join q).join r).normalize ∧
      (p.joinNormalized q).joinNormalized r = p.joinNormalized (q.joinNormalized r) := by
  refine ⟨?_, normalize_normalize p, isFolded_iff, (normalize_join_normalize p q).symm,
    (joinNormalized_normalize p q).symm, joinNormalized_joinNormalized p q r, ?_⟩
  · exact isFolded_iff.1 (isFolded_normalize p)
  · calc (p.joinNormalized q).joinNormalized r
        = (p.join (q.join r)).normalize := by rw [joinNormalized_joinNormalized, join_assoc]
      _ = (p.normalize.join (q.join r).normalize.normalize).normalize := by
          rw [normalize_normalize, normalize_join_normalize]
      _ = p.joinNormalized (q.joinNormalized r) := normalize_join_normalize p (q.join r).normalize

/-- A join that climbs above its base. -/
example : (⟨"a/b"⟩ : Path).joinNormalized ⟨"./../../../c"⟩ = ⟨"../c"⟩ := by decide +kernel

end Path

end PackageRouting
