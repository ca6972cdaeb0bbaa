/-
PackageRouting/Path/Component.lean

The components that a slash-separated path is read as: the root, a leading `.`,
a step up, or a name.  Components are ordered with the root first and names
last, names by their characters; a path is ordered as the list of its
components, so `a/b` comes before `a-b`.

`render` writes a list of components with single slashes, and `normalForm`
folds every `..` that has a name before it.  Main result: `isNormal_normalForm`
(the folded components are a root and names, or steps up and names).
-/

namespace PackageRouting

open Std

/-- One step of a path. -/
inductive Component where
  /-- The leading `/`. -/
  | root
  /-- A `.` at the very front of a relative path. -/
  | here
  /-- A `..`. -/
  | up
  /-- Any other step. -/
  | name (text : String)
  deriving DecidableEq, Repr, Inhabited

namespace Component

/-- The kind of a component, as its place in the order. -/
def rank : Component → Nat
  | root => 0
  | here => 1
  | up => 2
  | name _ => 3

/-- The text of a component inside a path. -/
def text : Component → String
  | root => "/"
  | here => "."
  | up => ".."
  | name t => t

/-- Whether a component is a name. -/
def isName : Component → Bool
  | name _ => true
  | _ => false

instance : Ord Component where
  compare := compareLex (compareOn rank) (compareOn text)

instance : TransOrd Component :=
  inferInstanceAs (TransCmp (compareLex (compareOn rank) (compareOn text)))

instance : LawfulEqOrd Component where
  eq_of_compare {a b} h := by
    replace h : compareLex (compareOn rank) (compareOn text) a b = .eq := h
    rw [compareLex_eq_eq] at h
    obtain ⟨hr, ht⟩ := h
    replace hr : rank a = rank b := LawfulEqOrd.eq_of_compare hr
    replace ht : text a = text b := LawfulEqOrd.eq_of_compare ht
    cases a <;> cases b <;> simp_all [rank, text]

/-! ### Writing -/

/-- The components with one slash between neighbours; the root is a slash of its own. -/
def render : List Component → String
  | root :: rest => "/" ++ "/".intercalate (rest.map text)
  | cs => "/".intercalate (cs.map text)

/-! ### Folding steps up -/

/-- Adds one component to a normal form, whose components are held last first. -/
def pushNormal : List Component → Component → List Component
  | acc, here => acc
  | name _ :: acc, up => acc
  | root :: acc, up => root :: acc
  | acc, c => c :: acc

/-- The components without `.`, where each `..` removes the name before it and is dropped
right after the root. -/
def normalForm (cs : List Component) : List Component :=
  (cs.foldl pushNormal []).reverse

/-- A root and then names, or steps up and then names. -/
def IsNormal (cs : List Component) : Prop :=
  (∃ names, (∀ c ∈ names, isName c) ∧ cs = root :: names) ∨
    ∃ n names, (∀ c ∈ names, isName c) ∧ cs = List.replicate n up ++ names

/-- The normal forms, with the components last first, as the fold holds them. -/
def IsNormalStack (acc : List Component) : Prop :=
  ∃ names base, (∀ c ∈ names, isName c) ∧ acc = names ++ base ∧
    (base = [root] ∨ ∃ n, base = List.replicate n up)

theorem isNormalStack_nil : IsNormalStack [] :=
  ⟨[], [], by simp, rfl, .inr ⟨0, rfl⟩⟩

theorem isNormalStack_pushNormal {acc : List Component} {c : Component} (hc : c ≠ root)
    (h : IsNormalStack acc) : IsNormalStack (pushNormal acc c) := by
  obtain ⟨names, base, hn, rfl, hb⟩ := h
  cases c with
  | root => exact absurd rfl hc
  | here => exact ⟨names, base, hn, by cases names <;> simp [pushNormal], hb⟩
  | name t => exact ⟨name t :: names, base, by simpa [isName] using hn, by simp [pushNormal], hb⟩
  | up =>
    cases names with
    | nil =>
      rcases hb with rfl | ⟨n, rfl⟩
      · exact ⟨[], [root], by simp, rfl, .inl rfl⟩
      · refine ⟨[], List.replicate (n + 1) up, by simp, ?_, .inr ⟨n + 1, rfl⟩⟩
        cases n <;> simp [pushNormal, List.replicate_succ]
    | cons d names =>
      cases d with
      | name t => exact ⟨names, base, fun c hc => hn c (List.mem_cons_of_mem _ hc), rfl, hb⟩
      | _ => simp [isName] at hn

theorem isNormalStack_foldl {cs acc : List Component} (hcs : root ∉ cs)
    (h : IsNormalStack acc) : IsNormalStack (cs.foldl pushNormal acc) := by
  induction cs generalizing acc with
  | nil => exact h
  | cons c cs ih =>
    simp only [List.mem_cons, not_or] at hcs
    exact ih hcs.2 (isNormalStack_pushNormal (Ne.symm hcs.1) h)

theorem IsNormalStack.isNormal_reverse {acc : List Component} (h : IsNormalStack acc) :
    IsNormal acc.reverse := by
  obtain ⟨names, base, hn, rfl, rfl | ⟨n, rfl⟩⟩ := h
  · exact .inl ⟨names.reverse, by simpa using hn, by simp⟩
  · exact .inr ⟨n, names.reverse, by simpa using hn, by simp⟩

/-- **A folded path is in normal form**, when the root stands nowhere but in front. -/
theorem isNormal_normalForm {cs : List Component} (h : root ∉ cs.tail) :
    IsNormal (normalForm cs) := by
  refine IsNormalStack.isNormal_reverse ?_
  cases cs with
  | nil => exact isNormalStack_nil
  | cons c rest =>
    rw [List.foldl_cons]
    refine @isNormalStack_foldl rest _ h ?_
    by_cases hc : c = root
    · subst hc
      exact ⟨[], [root], by simp, rfl, .inl rfl⟩
    · exact isNormalStack_pushNormal hc isNormalStack_nil

end Component

end PackageRouting
