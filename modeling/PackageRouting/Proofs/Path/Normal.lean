/-
PackageRouting/Proofs/Path/Normal.lean

Writing components and reading them back.

The components of a path are well formed: the root and a leading `.` stand
nowhere but in front, and every name is a text that a piece can be
(`wellFormed_components`).  Well-formed components are the components of the
text they are written as (`components_render`), and folding keeps them well
formed, so a normal form is spelled in one way only.  Folded components are left
as they are by folding them again (`IsNormal.normalForm_eq`).

Main results: `components_toSlash`, `components_normalize`, `isFolded_normalize`,
`normalize_ext`, `normalize_normalize`.
-/
import PackageRouting.Proofs.Path.Spelling

namespace PackageRouting

namespace Component

/-- The texts that a piece stands for as a name. -/
def IsProperName (s : String) : Prop := s ≠ "" ∧ s ≠ "." ∧ s ≠ ".." ∧ '/' ∉ s.toList

instance (s : String) : Decidable (IsProperName s) :=
  inferInstanceAs (Decidable (s ≠ "" ∧ s ≠ "." ∧ s ≠ ".." ∧ '/' ∉ s.toList))

/-- The component is none that only stands in front, and its name is proper. -/
def IsInner : Component → Prop
  | root => False
  | here => False
  | up => True
  | name s => IsProperName s

/-- The lists that are read off a path. -/
inductive WellFormed : List Component → Prop
  | nil : WellFormed []
  | root {rest : List Component} (h : ∀ c ∈ rest, c.IsInner) : WellFormed (root :: rest)
  | here {rest : List Component} (h : ∀ c ∈ rest, c.IsInner) : WellFormed (here :: rest)
  | inner {c : Component} {rest : List Component} (hc : c.IsInner) (h : ∀ d ∈ rest, d.IsInner) :
      WellFormed (c :: rest)

variable {cs acc : List Component} {c : Component}

theorem WellFormed.of_inner (h : ∀ c ∈ cs, c.IsInner) : WellFormed cs := by
  cases cs with
  | nil => exact .nil
  | cons c rest =>
    exact .inner (h c List.mem_cons_self) fun d hd => h d (List.mem_cons_of_mem _ hd)

/-! ### Folding -/

theorem mem_of_mem_pushNormal {d : Component} (h : d ∈ pushNormal acc c) : d = c ∨ d ∈ acc := by
  unfold pushNormal at h
  split at h
  · exact .inr h
  · exact .inr (List.mem_cons_of_mem _ h)
  · exact .inr h
  · exact List.mem_cons.1 h

theorem mem_of_mem_foldl_pushNormal {d : Component} (h : d ∈ cs.foldl pushNormal acc) :
    d ∈ cs ∨ d ∈ acc := by
  induction cs generalizing acc with
  | nil => exact .inr h
  | cons c rest ih =>
    rcases ih h with h | h
    · exact .inl (List.mem_cons_of_mem _ h)
    · rcases mem_of_mem_pushNormal h with rfl | h
      · exact .inl List.mem_cons_self
      · exact .inr h

/-- Folding adds no component. -/
theorem mem_of_mem_normalForm {d : Component} (h : d ∈ normalForm cs) : d ∈ cs := by
  rcases mem_of_mem_foldl_pushNormal (List.mem_reverse.1 h) with h | h
  · exact h
  · simp at h

theorem here_notMem_foldl_pushNormal (h : here ∉ acc) : here ∉ cs.foldl pushNormal acc := by
  induction cs generalizing acc with
  | nil => exact h
  | cons c rest ih =>
    apply ih
    unfold pushNormal
    split
    · exact h
    · exact fun hmem => h (List.mem_cons_of_mem _ hmem)
    · exact h
    -- a component that is put on the stack is no `.`
    · next hne _ _ => simp [h, Ne.symm hne]

theorem here_notMem_normalForm (cs : List Component) : here ∉ normalForm cs := by
  intro h
  exact here_notMem_foldl_pushNormal (by simp) (List.mem_reverse.1 h)

theorem WellFormed.root_notMem_tail (h : WellFormed cs) : Component.root ∉ cs.tail := by
  intro hroot
  cases h with
  | nil => simp at hroot
  | root h => exact h _ hroot
  | here h => exact h _ hroot
  | inner hc h => exact h _ hroot

/-- A name of a well-formed list is proper. -/
theorem WellFormed.isInner_of_mem (h : WellFormed cs) (hc : c ∈ cs) (hroot : c ≠ .root)
    (hhere : c ≠ .here) : c.IsInner := by
  cases h with
  | nil => simp at hc
  | root h =>
    rcases List.mem_cons.1 hc with rfl | hc
    · exact absurd rfl hroot
    · exact h c hc
  | here h =>
    rcases List.mem_cons.1 hc with rfl | hc
    · exact absurd rfl hhere
    · exact h c hc
  | inner hd h =>
    rcases List.mem_cons.1 hc with rfl | hc
    · exact hd
    · exact h c hc

/-- **Folding keeps a list well formed.** -/
theorem WellFormed.normalForm (h : WellFormed cs) : WellFormed (normalForm cs) := by
  have hinner : ∀ c ∈ Component.normalForm cs, c ≠ .root → c.IsInner := by
    intro c hc hroot
    refine h.isInner_of_mem (mem_of_mem_normalForm hc) hroot ?_
    rintro rfl
    exact here_notMem_normalForm cs hc
  rcases isNormal_normalForm h.root_notMem_tail with ⟨names, hnames, heq⟩ | ⟨n, names, hnames, heq⟩
  -- a normal form has the root in front, or no root at all
  · rw [heq] at hinner ⊢
    refine .root fun c hc => hinner c (List.mem_cons_of_mem _ hc) ?_
    rintro rfl
    simpa [isName] using hnames _ hc
  · apply WellFormed.of_inner
    intro c hc
    apply hinner c hc
    rintro rfl
    rw [heq] at hc
    rcases List.mem_append.1 hc with hc | hc
    · simp at hc
    · simpa [isName] using hnames _ hc

theorem foldl_pushNormal_names (h : ∀ c ∈ cs, isName c) :
    cs.foldl pushNormal acc = cs.reverse ++ acc := by
  induction cs generalizing acc with
  | nil => rfl
  | cons c rest ih =>
    have hpush : pushNormal acc c = c :: acc := by
      cases c with
      | name t => simp [pushNormal]
      | _ => simpa [isName] using h _ List.mem_cons_self
    rw [List.foldl_cons, hpush, ih fun d hd => h d (List.mem_cons_of_mem _ hd)]
    simp

theorem normalForm_names (h : ∀ c ∈ cs, isName c) : normalForm cs = cs := by
  rw [normalForm, foldl_pushNormal_names h]
  simp

theorem foldl_pushNormal_ups (n m : Nat) :
    (List.replicate n up).foldl pushNormal (List.replicate m up) = List.replicate (m + n) up := by
  induction n generalizing m with
  | zero => rfl
  | succ n ih =>
    -- a step up stays on a stack that has no name
    have hpush : pushNormal (List.replicate m up) up = List.replicate (m + 1) up := by
      cases m <;> rfl
    rw [List.replicate_succ, List.foldl_cons, hpush, ih, Nat.add_right_comm, Nat.add_assoc]

/-- **In a normal form nothing is left to fold.** -/
theorem IsNormal.normalForm_eq (h : IsNormal cs) : normalForm cs = cs := by
  rcases h with ⟨names, hnames, rfl⟩ | ⟨n, names, hnames, rfl⟩
  · have hroot : pushNormal [] root = [root] := rfl
    rw [normalForm, List.foldl_cons, hroot, foldl_pushNormal_names hnames]
    simp
  · have hups : (List.replicate n up).foldl pushNormal [] = List.replicate n up := by
      simpa using foldl_pushNormal_ups n 0
    rw [normalForm, List.foldl_append, hups, foldl_pushNormal_names hnames]
    simp

/-! ### Writing -/

theorem IsInner.laterComponent?_text (h : c.IsInner) : Path.laterComponent? c.text = some c := by
  cases c with
  | root => exact h.elim
  | here => exact h.elim
  | up => rfl
  | name s =>
    obtain ⟨hempty, hdot, hup, -⟩ := h
    show Path.laterComponent? s = some (name s)
    unfold Path.laterComponent?
    split <;> simp_all

theorem IsInner.slash_notMem (h : c.IsInner) : '/' ∉ c.text.toList := by
  cases c with
  | root => exact h.elim
  | here => exact h.elim
  | up => decide
  | name s => exact h.2.2.2

theorem IsInner.text_ne_empty (h : c.IsInner) : c.text ≠ "" := by
  cases c with
  | root => exact h.elim
  | here => exact h.elim
  | up => decide
  | name s => exact h.1

theorem IsInner.text_ne_dot (h : c.IsInner) : c.text ≠ "." := by
  cases c with
  | root => exact h.elim
  | here => exact h.elim
  | up => decide
  | name s => exact h.2.1

/-- In front of a slash an inner component is written as it is behind one. -/
theorem IsInner.firstComponent?_text (h : c.IsInner) :
    Path.firstComponent? true c.text = some c := by
  rw [← h.laterComponent?_text, Path.firstComponent?_eq_laterComponent? h.text_ne_empty h.text_ne_dot]

theorem filterMap_laterComponent?_text (h : ∀ c ∈ cs, c.IsInner) :
    (cs.map text).filterMap Path.laterComponent? = cs := by
  induction cs with
  | nil => rfl
  | cons c rest ih =>
    rw [List.map_cons, List.filterMap_cons, (h c List.mem_cons_self).laterComponent?_text,
      ih fun d hd => h d (List.mem_cons_of_mem _ hd)]

theorem map_text_names (names : List String) : (names.map name).map text = names := by
  rw [List.map_map]
  exact List.map_id names

/-- Inner components are written as pieces that stand for them, wherever they stand. -/
theorem steps_append_text (h : ∀ c ∈ cs, c.IsInner) (hcs : cs ≠ []) (before after : List String) :
    Path.steps (before ++ cs.map text ++ after) =
      Path.steps before ++ cs ++ after.filterMap Path.laterComponent? := by
  by_cases hbefore : before = []
  · obtain ⟨c, rest, rfl⟩ := List.exists_cons_of_ne_nil hcs
    have hrest := filterMap_laterComponent?_text fun d hd => h d (List.mem_cons_of_mem _ hd)
    have hsteps : Path.steps ((c :: rest).map text) = c :: rest := by
      rw [List.map_cons, Path.steps, (h c List.mem_cons_self).firstComponent?_text, hrest]
      rfl
    rw [hbefore, List.nil_append, Path.steps_append (by simp), hsteps]
    rfl
  · rw [List.append_assoc, Path.steps_append hbefore, List.filterMap_append,
      filterMap_laterComponent?_text h, List.append_assoc]

theorem slash_notMem_of_mem_map_text (h : ∀ c ∈ cs, c.IsInner) {s : String}
    (hs : s ∈ cs.map text) : '/' ∉ s.toList := by
  obtain ⟨c, hc, rfl⟩ := List.mem_map.1 hs
  exact (h c hc).slash_notMem

/-- What stands around names when they are written with other components. -/
theorem exists_render_append (before after : List Component) :
    ∃ front back : String, ∀ names ≠ [],
      render (before ++ names.map name ++ after) = front ++ "/".intercalate names ++ back := by
  have htext : ∀ (cs : List Component) (names : List String),
      (cs ++ names.map name ++ after).map text = cs.map text ++ names ++ after.map text := by
    intro cs names
    rw [List.map_append, List.map_append, map_text_names]
  have hpieces : ∃ pieces : List String, ∀ names ≠ [],
      render (before ++ names.map name ++ after) =
        "/".intercalate (pieces ++ names ++ after.map text) := by
    cases before with
    | nil =>
      refine ⟨[], fun names hnames => ?_⟩
      obtain ⟨s, rest, rfl⟩ := List.exists_cons_of_ne_nil hnames
      exact congrArg "/".intercalate (htext [] (s :: rest))
    | cons c rest =>
      refine ⟨(if c = root then "" else c.text) :: rest.map text, fun names hnames => ?_⟩
      cases c with
      | root =>
        -- the root is an empty piece in front of the first slash
        show "/" ++ "/".intercalate ((rest ++ names.map name ++ after).map text) =
          "/".intercalate ("" :: (rest.map text ++ names ++ after.map text))
        rw [String.intercalate_cons_of_ne_nil (by simp [hnames]), String.empty_append, htext]
      | _ => exact congrArg (fun pieces => "/".intercalate (_ :: pieces)) (htext rest names)
  obtain ⟨pieces, hpieces⟩ := hpieces
  obtain ⟨front, back, haround⟩ := Path.exists_intercalate_append pieces (after.map text)
  exact ⟨front, back, fun names hnames => (hpieces names hnames).trans (haround names hnames)⟩

/-- Writing components adds slashes. -/
theorem exists_mem_text_of_mem_render {a : Char} (h : a ∈ (render cs).toList) :
    a = '/' ∨ ∃ c ∈ cs, a ∈ c.text.toList := by
  have hpieces : ∀ {cs : List Component}, a ∈ ("/".intercalate (cs.map text)).toList →
      a = '/' ∨ ∃ c ∈ cs, a ∈ c.text.toList := by
    intro cs ha
    refine (Path.exists_mem_of_mem_intercalate ha).imp_right ?_
    rintro ⟨_, hs, hmem⟩
    obtain ⟨c, hc, rfl⟩ := List.mem_map.1 hs
    exact ⟨c, hc, hmem⟩
  unfold render at h
  split at h
  · rw [String.toList_append, List.mem_append] at h
    rcases h with h | h
    · exact .inl (List.mem_singleton.1 h)
    · exact (hpieces h).imp_right fun ⟨c, hc, hmem⟩ => ⟨c, List.mem_cons_of_mem _ hc, hmem⟩
  · exact hpieces h

/-- The components of a relative path that is written from a first piece and inner ones. -/
theorem components_intercalate_text {cs : List Component} (hfirst : c.text ≠ "")
    (hslash : '/' ∉ c.text.toList) (hc : Path.firstComponent? true c.text = some c)
    (h : ∀ d ∈ cs, d.IsInner) :
    (⟨"/".intercalate ((c :: cs).map text)⟩ : Path).components = c :: cs := by
  rw [List.map_cons, Path.components_intercalate (by simp) (by simp [hfirst])]
  · rw [Path.steps, hc, filterMap_laterComponent?_text h]
    rfl
  · intro s hs
    rcases List.mem_cons.1 hs with rfl | hs
    · exact hslash
    · exact slash_notMem_of_mem_map_text h hs

/-- **Well-formed components are those of the text they are written as.** -/
theorem components_render (h : WellFormed cs) : (⟨render cs⟩ : Path).components = cs := by
  cases h with
  | nil => rfl
  | @root rest h =>
    -- the root is an empty piece in front of the first slash
    have htext : render (.root :: rest) = "" ++ "/" ++ "/".intercalate (rest.map text) := rfl
    rw [htext, Path.components_append_slash]
    have hrest : (⟨"/".intercalate (rest.map text)⟩ : Path).segments.filterMap
        Path.laterComponent? = rest := by
      by_cases hnil : rest = []
      · subst hnil
        rfl
      · rw [Path.segments_intercalate (by simpa using hnil)
          fun s hs => slash_notMem_of_mem_map_text h hs, filterMap_laterComponent?_text h]
    rw [hrest]
    rfl
  | here h => exact components_intercalate_text (by decide) (by decide) rfl h
  | @inner c rest hc h =>
    have htext : render (c :: rest) = "/".intercalate ((c :: rest).map text) := by
      cases c with
      | root => exact hc.elim
      | _ => rfl
    rw [htext]
    exact components_intercalate_text hc.text_ne_empty hc.slash_notMem hc.firstComponent?_text h

end Component

namespace Path

open Component

variable {p q : Path}

/-! ### Reading -/

theorem isInner_of_laterComponent? {s : String} {c : Component} (h : laterComponent? s = some c)
    (hs : '/' ∉ s.toList) : c.IsInner := by
  unfold laterComponent? at h
  split at h
  · cases h
  · cases h
  · cases h
    trivial
  · cases h
    exact ⟨by assumption, by assumption, by assumption, hs⟩

/-- **The components of a path are well formed.** -/
theorem wellFormed_components (p : Path) : WellFormed p.components := by
  by_cases hp : p.text = ""
  · rw [components_of_text_eq_empty hp]
    exact .nil
  rw [components_eq_steps hp]
  have hpieces : ∀ s ∈ p.segments, '/' ∉ s.toList := fun s hs => not_mem_of_mem_segments hs
  cases hs : p.segments with
  | nil => exact .nil
  | cons first rest =>
    rw [hs] at hpieces
    have hrest : ∀ c ∈ rest.filterMap laterComponent?, c.IsInner := by
      intro c hc
      obtain ⟨s, hmem, hsome⟩ := List.mem_filterMap.1 hc
      exact isInner_of_laterComponent? hsome (hpieces s (List.mem_cons_of_mem _ hmem))
    show WellFormed ((firstComponent? true first).toList ++ rest.filterMap laterComponent?)
    unfold firstComponent?
    split
    · exact .root hrest
    · exact .here hrest
    · exact .inner trivial hrest
    · refine .inner ?_ hrest
      exact ⟨by assumption, by assumption, by assumption, hpieces _ List.mem_cons_self⟩

/-- **The text with single slashes is a spelling of the path.** -/
theorem components_toSlash (p : Path) : (⟨p.toSlash⟩ : Path).components = p.components :=
  components_render (wellFormed_components p)

/-- **The normal form has the folded components.** -/
theorem components_normalize (p : Path) : p.normalize.components = normalForm p.components :=
  components_render (wellFormed_components p).normalForm

/-- The path is its own normal form, in some spelling. -/
def IsFolded (p : Path) : Prop := p.normalize ≈ p

instance (p : Path) : Decidable p.IsFolded :=
  inferInstanceAs (Decidable (p.normalize ≈ p))

theorem isFolded_normalize (p : Path) : p.normalize.IsFolded := by
  show p.normalize.normalize.components = p.normalize.components
  rw [components_normalize, components_normalize,
    (isNormal_normalForm (wellFormed_components p).root_notMem_tail).normalForm_eq]

theorem IsFolded.congr (h : p.IsFolded) (hpq : p ≈ q) : q.IsFolded := by
  show q.normalize ≈ q
  rw [← normalize_congr hpq]
  exact equiv_trans h hpq

/-- Normal forms of one path are spelled alike. -/
theorem normalize_ext (h : p.normalize ≈ q.normalize) : p.normalize = q.normalize := by
  have hcomp : normalForm p.components = normalForm q.components := by
    rw [← components_normalize, ← components_normalize]
    exact h
  rw [normalize, normalize, hcomp]

/-- **A normal form is its own normal form**, spelling and all. -/
theorem normalize_normalize (p : Path) : p.normalize.normalize = p.normalize :=
  normalize_ext (isFolded_normalize p)

/-- The text of a normal form with single slashes is left as it is by reading, folding and writing
it again. -/
theorem toSlash_normalize_toSlash (p : Path) :
    (⟨p.normalize.toSlash⟩ : Path).normalize.toSlash = p.normalize.toSlash := by
  rw [normalize_congr (components_toSlash p.normalize), normalize_normalize]

end Path

end PackageRouting
