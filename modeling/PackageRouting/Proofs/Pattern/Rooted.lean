/-
PackageRouting/Proofs/Pattern/Rooted.lean

Patterns as seen from a directory.

A pattern is a text that is split at its wildcard, and folding works on
components.  The two fit together because the wildcard stands in one piece
(`StandsIn`): filled with names, that piece becomes names, none of which can turn
into a `.` or a `..` (`IsNameSequence.substitute`), and what stands around it is
the same whatever the names are.  If folding leaves the wildcard in place, no
step up behind it reaches the piece, so the names that are filled in stay too and
the rest is folded by itself (`StandsIn.normalForm_components`).

Main result: `substitute_of_rooted` (seen from a directory, a pattern is filled
with names to the text that the filled pattern has when it is seen from there).
-/
import PackageRouting.Proofs.Path.Below
import PackageRouting.Proofs.Pattern

namespace PackageRouting

namespace Pattern

open Component (render normalForm name)

variable {p q T R : Pattern} {root : Path} {s star front back : String}
  {before after : List Component}

/-! ### Sequences of names -/

/-- Each piece stands for a name: none is empty, `.` or `..`. -/
def IsNameSequence (s : String) : Prop :=
  ∀ piece ∈ (⟨s⟩ : Path).segments, piece ≠ "" ∧ piece ≠ "." ∧ piece ≠ ".."

instance (s : String) : Decidable (IsNameSequence s) :=
  inferInstanceAs (Decidable (∀ piece ∈ (⟨s⟩ : Path).segments, _))

theorem infix_dots_iff {l : List Char} :
    l <:+: ['.', '.'] ↔ l = [] ∨ l = ['.'] ∨ l = ['.', '.'] := by
  constructor
  · intro h
    simp only [List.infix_cons_iff, List.prefix_cons_iff, List.prefix_nil, List.infix_nil] at h
    rcases h with (rfl | ⟨_, rfl, rfl | ⟨_, rfl, rfl⟩⟩) | (rfl | ⟨_, rfl, rfl⟩) | rfl <;> simp
  · rintro (rfl | rfl | rfl) <;> decide

/-- The pieces that stand for no name are the parts of `..`. -/
theorem isName_iff {piece : String} :
    (piece ≠ "" ∧ piece ≠ "." ∧ piece ≠ "..") ↔ ¬ piece.toList <:+: ['.', '.'] := by
  rw [infix_dots_iff, not_or, not_or, ne_eq, ne_eq, ne_eq, ← String.toList_inj,
    ← String.toList_inj, ← String.toList_inj]
  exact Iff.rfl

/-- A piece with a name in it stands for a name. -/
theorem isName_of_infix {piece whole : String} (h : piece ≠ "" ∧ piece ≠ "." ∧ piece ≠ "..")
    (hwithin : piece.toList <:+: whole.toList) : whole ≠ "" ∧ whole ≠ "." ∧ whole ≠ ".." :=
  isName_iff.2 fun hdots => isName_iff.1 h (hwithin.trans hdots)

/-- What is put behind a sequence of names becomes a part of its last name. -/
theorem IsNameSequence.append_right (h : IsNameSequence s) (hback : '/' ∉ back.toList) :
    IsNameSequence (s ++ back) := by
  obtain ⟨pieces, last, hlast, hsegments⟩ := Path.exists_segments_append_right s
  have hs : (⟨s⟩ : Path).segments = pieces ++ [last] := by
    rw [← Path.segments_of_notMem hlast]
    simpa using hsegments ""
  have hadded : (⟨s ++ back⟩ : Path).segments = pieces ++ [last ++ back] := by
    rw [hsegments, Path.segments_of_notMem (by simp [hlast, hback])]
  intro piece hpiece
  rw [IsNameSequence, hs] at h
  rcases List.mem_append.1 (hadded ▸ hpiece) with hpiece | hpiece
  · exact h piece (List.mem_append_left _ hpiece)
  · obtain rfl := List.mem_singleton.1 hpiece
    refine isName_of_infix (h last (List.mem_append_right _ List.mem_cons_self)) ?_
    rw [String.toList_append]
    exact (List.prefix_append ..).isInfix

/-- What is put in front of a sequence of names becomes a part of its first name. -/
theorem IsNameSequence.append_left (h : IsNameSequence s) (hfront : '/' ∉ front.toList) :
    IsNameSequence (front ++ s) := by
  obtain ⟨first, pieces, hfirst, hsegments⟩ := Path.exists_segments_append_left s
  have hs : (⟨s⟩ : Path).segments = [first] ++ pieces := by
    rw [← Path.segments_of_notMem hfirst]
    simpa using hsegments ""
  have hadded : (⟨front ++ s⟩ : Path).segments = [front ++ first] ++ pieces := by
    rw [hsegments, Path.segments_of_notMem (by simp [hfirst, hfront])]
  intro piece hpiece
  rw [IsNameSequence, hs] at h
  rcases List.mem_append.1 (hadded ▸ hpiece) with hpiece | hpiece
  · obtain rfl := List.mem_singleton.1 hpiece
    refine isName_of_infix (h first (List.mem_append_left _ List.mem_cons_self)) ?_
    rw [String.toList_append]
    exact (List.suffix_append ..).isInfix
  · exact h piece (List.mem_append_right _ hpiece)

/-- **A pattern within one piece is filled with names to names.** -/
theorem IsNameSequence.substitute (h : IsNameSequence star) (hfront : '/' ∉ p.front.toList)
    (hback : '/' ∉ p.back.toList) : IsNameSequence (p.substitute star) :=
  (h.append_left hfront).append_right hback

theorem IsNameSequence.isInner (h : IsNameSequence s) :
    ∀ c ∈ (⟨s⟩ : Path).segments.map name, c.IsInner := by
  intro c hc
  obtain ⟨piece, hpiece, rfl⟩ := List.mem_map.1 hc
  obtain ⟨hempty, hdot, hdots⟩ := h piece hpiece
  exact ⟨hempty, hdot, hdots, Path.not_mem_of_mem_segments hpiece⟩

theorem IsNameSequence.ne_empty (h : IsNameSequence s) : s ≠ "" := by
  rintro rfl
  exact (h "" List.mem_cons_self).1 rfl

/-- The first name has a first character, which is no slash. -/
theorem IsNameSequence.exists_head? (h : IsNameSequence s) :
    ∃ c ≠ '/', s.toList.head? = some c := by
  cases hlist : s.toList with
  | nil => exact absurd (String.toList_eq_nil_iff.1 hlist) h.ne_empty
  | cons c rest =>
    refine ⟨c, ?_, rfl⟩
    rintro rfl
    have hs : s = "" ++ "/" ++ String.ofList rest := by
      rw [← String.toList_inj, hlist]
      simp
    refine (h "" ?_).1 rfl
    rw [hs, Path.segments_append_slash]
    exact List.mem_cons_self

/-! ### The piece with the wildcard -/

/-- The wildcard stands in the piece `q`, and components stand before and after it. -/
structure StandsIn (p : Pattern) (before : List Component) (q : Pattern)
    (after : List Component) : Prop where
  front : '/' ∉ q.front.toList
  back : '/' ∉ q.back.toList
  /-- The wildcard is in no other place. -/
  star_notMem : ∀ c ∈ before ++ after, '*' ∉ c.text.toList
  root_notMem : Component.root ∉ after
  components_substitute : ∀ star, IsNameSequence star →
    (⟨p.substitute star⟩ : Path).components =
      before ++ (⟨q.substitute star⟩ : Path).segments.map name ++ after

/-- The pieces of a filled pattern: those around the wildcard's piece are the same for all texts. -/
theorem exists_segments_substitute (p : Pattern) :
    ∃ (earlier : List String) (q : Pattern) (later : List String),
      '/' ∉ q.front.toList ∧ '/' ∉ q.back.toList ∧
      ∀ star, (⟨p.substitute star⟩ : Path).segments =
        earlier ++ (⟨q.substitute star⟩ : Path).segments ++ later := by
  obtain ⟨earlier, front, hfront, hearlier⟩ := Path.exists_segments_append_right p.front
  obtain ⟨back, later, hback, hlater⟩ := Path.exists_segments_append_left p.back
  refine ⟨earlier, ⟨front, back⟩, later, hfront, hback, fun star => ?_⟩
  show (⟨p.front ++ star ++ p.back⟩ : Path).segments =
    earlier ++ (⟨front ++ star ++ back⟩ : Path).segments ++ later
  rw [String.append_assoc, hearlier, ← String.append_assoc, hlater, List.append_assoc]

/-- **The wildcard of a pattern stands in a single piece.** -/
theorem exists_standsIn (hfront : '*' ∉ p.front.toList) (hback : '*' ∉ p.back.toList) :
    ∃ before q after, p.StandsIn before q after := by
  obtain ⟨earlier, q, later, hqfront, hqback, hsegments⟩ := exists_segments_substitute p
  -- filled with nothing, the pattern has these pieces and no wildcard
  have hpieces : ∀ piece ∈ earlier ++ later, '*' ∉ piece.toList := by
    intro piece hpiece hstar
    have hmem : piece ∈ (⟨p.substitute ""⟩ : Path).segments := by
      rw [hsegments]
      rcases List.mem_append.1 hpiece with hpiece | hpiece <;> simp [hpiece]
    simpa [substitute, hfront, hback] using Path.mem_text_of_mem_segments hmem hstar
  refine ⟨Path.steps earlier, q, later.filterMap Path.laterComponent?, hqfront, hqback, ?_,
    Path.root_notMem_filterMap_laterComponent? later, fun star hstar => ?_⟩
  · intro c hc hstar
    rcases Path.text_of_mem_steps_append hc with htext | htext
    · rw [htext] at hstar
      exact absurd hstar (by decide)
    · exact hpieces _ htext hstar
  · have hne : (⟨p.substitute star⟩ : Path).text ≠ "" := by
      simp [substitute, hstar.ne_empty]
    have hnames := hstar.substitute hqfront hqback
    rw [Path.components_eq_steps hne, hsegments, ← Component.steps_append_text hnames.isInner
      (by simp [Path.segments_ne_nil]), Component.map_text_names]

/-- If folding leaves the wildcard in place, what stands behind it folds to names. -/
theorem StandsIn.isName_of_mem (h : p.StandsIn before q after)
    (hstays : '*' ∈ (⟨p.text⟩ : Path).normalize.toSlash.toList) :
    ∀ c ∈ normalForm after, c.isName := by
  have hpiece : '*' ∈ (name q.text).text.toList := by
    show '*' ∈ q.text.toList
    simp [toList_text]
  have hslash : '/' ∉ q.text.toList := by simp [toList_text, h.front, h.back]
  have hcomponents : (⟨p.text⟩ : Path).components = before ++ name q.text :: after := by
    rw [text, h.components_substitute "*" (by decide +kernel), ← text,
      Path.segments_of_notMem hslash, List.append_assoc]
    rfl
  have hbefore : name q.text ∉ before := fun hmem =>
    h.star_notMem _ (List.mem_append_left _ hmem) hpiece
  have hafter : name q.text ∉ after := fun hmem =>
    h.star_notMem _ (List.mem_append_right _ hmem) hpiece
  refine Component.isName_of_name_mem hbefore hafter h.root_notMem ?_
  -- the wildcard is in the text of some component, and no other component has it
  rw [Path.toSlash, Path.components_normalize, hcomponents] at hstays
  obtain ⟨c, hc, hstar⟩ :=
    (Component.exists_mem_text_of_mem_render hstays).resolve_left (by decide)
  have hmem := Component.mem_of_mem_normalForm hc
  rw [List.mem_append, List.mem_cons, or_left_comm, ← List.mem_append] at hmem
  obtain rfl := hmem.resolve_right fun hmem => h.star_notMem c hmem hstar
  exact hc

/-- **A name that is filled in is not folded away where the wildcard is not.** -/
theorem StandsIn.normalForm_components (h : p.StandsIn before q after)
    (hstays : '*' ∈ (⟨p.text⟩ : Path).normalize.toSlash.toList) (hstar : IsNameSequence star) :
    normalForm (⟨p.substitute star⟩ : Path).components =
      normalForm before ++ (⟨q.substitute star⟩ : Path).segments.map name ++ normalForm after := by
  have hafter := h.isName_of_mem hstays
  have hnames : ∀ c ∈ (⟨q.substitute star⟩ : Path).segments.map name, c.isName := by
    intro c hc
    obtain ⟨piece, -, rfl⟩ := List.mem_map.1 hc
    rfl
  have hfold : normalForm ((⟨q.substitute star⟩ : Path).segments.map name ++ after) =
      (⟨q.substitute star⟩ : Path).segments.map name ++ normalForm after := by
    rw [Component.normalForm_append hafter, Component.normalForm_names hnames]
  rw [h.components_substitute star hstar, List.append_assoc, Component.normalForm_append, hfold,
    List.append_assoc]
  rw [hfold]
  intro c hc
  exact (List.mem_append.1 hc).elim (hnames c) (hafter c)

/-- **The folded text of a filled pattern is a pattern that is filled.** -/
theorem exists_toSlash_normalize (hfront : '*' ∉ p.front.toList) (hback : '*' ∉ p.back.toList)
    (hstays : '*' ∈ (⟨p.text⟩ : Path).normalize.toSlash.toList) :
    ∃ r : Pattern, ∀ star, IsNameSequence star →
      (⟨p.substitute star⟩ : Path).normalize.toSlash = r.substitute star := by
  obtain ⟨before, q, after, h⟩ := exists_standsIn hfront hback
  obtain ⟨front, back, haround⟩ :=
    Component.exists_render_append (normalForm before) (normalForm after)
  refine ⟨⟨front ++ q.front, q.back ++ back⟩, fun star hstar => ?_⟩
  rw [Path.toSlash, Path.components_normalize, h.normalForm_components hstays hstar,
    haround _ (Path.segments_ne_nil _), Path.intercalate_segments]
  simp only [substitute, String.append_assoc]

/-! ### From a directory -/

/-- The pattern with its front seen from a directory, and nothing folded. -/
def joined (p : Pattern) (root : Path) : Pattern := ⟨(root.join ⟨p.front⟩).text, p.back⟩

/-- Joining looks at the front of a text, and the first name has no slash in front. -/
theorem join_substitute (hstar : IsNameSequence star) :
    root.join ⟨p.substitute star⟩ = ⟨(p.joined root).substitute star⟩ := by
  have hhead : (p.front ++ star ++ p.back).toList.head? = some '/' ↔
      p.front.toList.head? = some '/' := by
    obtain ⟨c, hc, hfirst⟩ := hstar.exists_head?
    rw [String.append_assoc, String.toList_append, List.head?_append, String.toList_append,
      List.head?_append, hfirst]
    cases p.front.toList.head? <;> simp [hc]
  show root.join ⟨p.front ++ star ++ p.back⟩ = ⟨(root.join ⟨p.front⟩).text ++ star ++ p.back⟩
  simp only [Path.join, hhead]
  by_cases hslash : p.front.toList.head? = some '/'
  · rw [if_pos hslash, if_pos hslash]
  rw [if_neg hslash, if_neg hslash]
  split <;> simp only [String.append_assoc]

theorem joinNormalized_substitute (hstar : IsNameSequence star) :
    root.joinNormalized ⟨p.substitute star⟩ =
      (⟨(p.joined root).substitute star⟩ : Path).normalize := by
  rw [Path.joinNormalized, join_substitute hstar]

/-- **A pattern that is seen from a directory is filled with names to the text that the filled
pattern has from there.** -/
theorem substitute_of_rooted (hroot : '*' ∉ root.text.toList) (hT : T.text.toList.count '*' = 1)
    (hR : T.rooted root = .ok R) (hstar : IsNameSequence star) :
    R.substitute star = (root.joinNormalized ⟨T.substitute star⟩).toSlash := by
  obtain ⟨hcount, htext⟩ := parse_eq_ok_iff.1 hR
  have hwild : IsNameSequence "*" := by decide +kernel
  have hjoin : root.joinNormalized ⟨T.text⟩ = (⟨(T.joined root).text⟩ : Path).normalize :=
    joinNormalized_substitute hwild
  rw [hjoin] at hcount htext
  rw [toList_text, List.count_append, List.count_cons_self] at hT
  have hfront : '*' ∉ (T.joined root).front.toList := by
    have hnone : '*' ∉ T.front.toList := List.count_eq_zero.1 (by omega)
    intro hmem
    rcases Path.mem_text_join hmem with h | h | h
    · exact absurd h (by decide)
    · exact hroot h
    · exact hnone h
  have hback : '*' ∉ (T.joined root).back.toList := List.count_eq_zero.1 (by
    show T.back.toList.count '*' = 0
    omega)
  obtain ⟨r, hr⟩ := exists_toSlash_normalize hfront hback (List.count_pos_iff.1 (by omega))
  -- the wildcard is filled in as any name is, so that the two patterns have one text
  obtain rfl : r = R := by
    have hsame : r.text = R.text := by
      rw [text, ← hr "*" hwild]
      exact htext.symm
    exact eq_of_text_eq hsame (htext ▸ hcount)
  rw [joinNormalized_substitute hstar, hr star hstar]

end Pattern

end PackageRouting
