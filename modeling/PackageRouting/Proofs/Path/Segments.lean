/-
PackageRouting/Proofs/Path/Segments.lean

The pieces between the slashes of a path, and the components they stand for.

A text and its pieces determine each other (`segments_intercalate`,
`intercalate_segments`).  What is put behind or in front of a text changes only
its last or first piece (`exists_segments_append_right`,
`exists_segments_append_left`).  The pieces of a path that is not empty stand for its
components, the first of them as one in front of a slash (`components_eq_steps`):
if there is no slash it is not empty, and then it makes no difference.
-/
import PackageRouting.Path.Basic

namespace PackageRouting

namespace Path

variable {p : Path}

/-! ### Texts and pieces -/

theorem segments_ne_nil (p : Path) : p.segments ≠ [] := by
  simp [segments]

theorem segments_append_slash (a b : String) :
    (⟨a ++ "/" ++ b⟩ : Path).segments = (⟨a⟩ : Path).segments ++ (⟨b⟩ : Path).segments := by
  have htext : (a ++ "/" ++ b).toList = a.toList ++ '/' :: b.toList := by simp
  rw [segments, htext, List.splitOn_append_cons_self, List.map_append]
  rfl

theorem not_mem_of_mem_splitOn {α : Type} [BEq α] [LawfulBEq α] {a : α} {l piece : List α}
    (h : piece ∈ l.splitOn a) : a ∉ piece := by
  induction l generalizing piece with
  | nil =>
    obtain rfl : piece = [] := by simpa [List.splitOn_nil] using h
    simp
  | cons x rest ih =>
    rw [List.splitOn_cons_eq_if_modifyHead] at h
    split at h
    · rcases List.mem_cons.1 h with rfl | h
      · simp
      · exact ih h
    · next hx =>
      obtain ⟨first, others, hsplit⟩ := List.exists_cons_of_ne_nil (List.splitOn_ne_nil a rest)
      rw [hsplit, List.modifyHead_cons] at h
      rcases List.mem_cons.1 h with rfl | h
      · have hfirst : a ∉ first := ih (hsplit ▸ List.mem_cons_self)
        have hne : a ≠ x := fun hax => hx (by simp [hax])
        simp [hfirst, hne]
      · exact ih (hsplit ▸ List.mem_cons_of_mem _ h)

/-- No piece has a slash. -/
theorem not_mem_of_mem_segments {s : String} (h : s ∈ p.segments) : '/' ∉ s.toList := by
  obtain ⟨piece, hpiece, rfl⟩ := List.mem_map.1 h
  rw [String.toList_ofList]
  exact not_mem_of_mem_splitOn hpiece

/-- Pieces without a slash are those of their text. -/
theorem segments_intercalate {l : List String} (hl : l ≠ []) (h : ∀ s ∈ l, '/' ∉ s.toList) :
    (⟨"/".intercalate l⟩ : Path).segments = l := by
  have hslash : "/".toList = ['/'] := rfl
  rw [segments, String.toList_intercalate, hslash, List.splitOn_intercalate, List.map_map]
  · simp
  · intro piece hpiece
    obtain ⟨s, hs, rfl⟩ := List.mem_map.1 hpiece
    exact h s hs
  · simpa using hl

/-- The text is its pieces with a slash between neighbours. -/
theorem intercalate_segments (p : Path) : "/".intercalate p.segments = p.text := by
  have hslash : "/".toList = ['/'] := rfl
  rw [← String.toList_inj, String.toList_intercalate, hslash, segments, List.map_map]
  have hid : String.toList ∘ String.ofList = id := by
    funext l
    exact String.toList_ofList
  rw [hid, List.map_id, List.intercalate_splitOn]

theorem segments_eq_empty_iff : p.segments = [""] ↔ p.text = "" := by
  constructor
  · intro h
    rw [← intercalate_segments, h, String.intercalate_singleton]
  · intro h
    rw [segments, h]
    rfl

theorem segments_of_notMem {s : String} (h : '/' ∉ s.toList) : (⟨s⟩ : Path).segments = [s] := by
  rw [segments, List.splitOn_eq_singleton h]
  simp

/-- The pieces of a longer text: those in front of the last slash of the front are pieces of
their own. -/
theorem exists_segments_append_right (front : String) :
    ∃ (pieces : List String) (last : String), '/' ∉ last.toList ∧
      ∀ s, (⟨front ++ s⟩ : Path).segments = pieces ++ (⟨last ++ s⟩ : Path).segments := by
  by_cases hslash : '/' ∈ front.toList
  · obtain ⟨last, rest, hfront, hlast⟩ := List.eq_append_cons_of_mem (List.mem_reverse.2 hslash)
    refine ⟨(⟨String.ofList rest.reverse⟩ : Path).segments, String.ofList last.reverse,
      by simpa using hlast, fun s => ?_⟩
    have htext : front = String.ofList rest.reverse ++ "/" ++ String.ofList last.reverse := by
      rw [← String.toList_inj, ← List.reverse_inj, hfront]
      simp
    rw [← segments_append_slash, htext, String.append_assoc]
  · exact ⟨[], front, hslash, fun s => rfl⟩

/-- The pieces of a longer text: those behind the first slash of the back are pieces of their
own. -/
theorem exists_segments_append_left (back : String) :
    ∃ (first : String) (pieces : List String), '/' ∉ first.toList ∧
      ∀ s, (⟨s ++ back⟩ : Path).segments = (⟨s ++ first⟩ : Path).segments ++ pieces := by
  by_cases hslash : '/' ∈ back.toList
  · obtain ⟨first, rest, hback, hfirst⟩ := List.eq_append_cons_of_mem hslash
    refine ⟨String.ofList first, (⟨String.ofList rest⟩ : Path).segments, by simpa using hfirst,
      fun s => ?_⟩
    have htext : back = String.ofList first ++ "/" ++ String.ofList rest := by
      rw [← String.toList_inj, hback]
      simp
    rw [← segments_append_slash, htext, ← String.append_assoc, ← String.append_assoc]
  · exact ⟨back, [], hslash, fun s => (List.append_nil _).symm⟩

/-- What stands around pieces when they are put together with others. -/
theorem exists_intercalate_append (before after : List String) :
    ∃ front back : String, ∀ l ≠ [],
      "/".intercalate (before ++ l ++ after) = front ++ "/".intercalate l ++ back := by
  have hback : ∃ back : String, ∀ l ≠ [],
      "/".intercalate (l ++ after) = "/".intercalate l ++ back := by
    by_cases hafter : after = []
    · exact ⟨"", fun l _ => by rw [hafter, List.append_nil, String.append_empty]⟩
    · refine ⟨"/" ++ "/".intercalate after, fun l hl => ?_⟩
      rw [String.intercalate_append_of_ne_nil hl hafter, String.append_assoc]
  obtain ⟨back, hback⟩ := hback
  by_cases hbefore : before = []
  · exact ⟨"", back, fun l hl => by rw [hbefore, List.nil_append, hback l hl, String.empty_append]⟩
  · refine ⟨"/".intercalate before ++ "/", back, fun l hl => ?_⟩
    rw [List.append_assoc, String.intercalate_append_of_ne_nil hbefore (by simp [hl]), hback l hl,
      String.append_assoc, String.append_assoc, String.append_assoc]

/-- The characters of a piece are characters of the text. -/
theorem mem_text_of_mem_segments {s : String} (hs : s ∈ p.segments) {c : Char}
    (hc : c ∈ s.toList) : c ∈ p.text.toList := by
  obtain ⟨before, after, hsplit⟩ := List.append_of_mem hs
  obtain ⟨front, back, haround⟩ := exists_intercalate_append before after
  have htext : p.text = front ++ s ++ back := by
    rw [← intercalate_segments, hsplit, List.append_cons, haround [s] (by simp),
      String.intercalate_singleton]
  rw [htext]
  simp [hc]

/-- Putting pieces together adds slashes. -/
theorem exists_mem_of_mem_intercalate {l : List String} {c : Char}
    (h : c ∈ ("/".intercalate l).toList) : c = '/' ∨ ∃ s ∈ l, c ∈ s.toList := by
  induction l with
  | nil => simp at h
  | cons s rest ih =>
    by_cases hrest : rest = []
    · rw [hrest, String.intercalate_singleton] at h
      exact .inr ⟨s, List.mem_cons_self, h⟩
    rw [String.intercalate_cons_of_ne_nil hrest, String.toList_append, String.toList_append,
      List.mem_append, List.mem_append] at h
    rcases h with (h | h) | h
    · exact .inr ⟨s, List.mem_cons_self, h⟩
    · exact .inl (List.mem_singleton.1 h)
    · exact (ih h).imp_right fun ⟨t, ht, hc⟩ => ⟨t, List.mem_cons_of_mem _ ht, hc⟩

/-! ### Pieces and components -/

/-- The components that pieces stand for when the first one stands in front of a slash. -/
def steps : List String → List Component
  | [] => []
  | first :: rest => (firstComponent? true first).toList ++ rest.filterMap laterComponent?

theorem firstComponent?_of_ne_empty {s : String} (h : s ≠ "") (slash : Bool) :
    firstComponent? slash s = firstComponent? true s := by
  unfold firstComponent?
  split <;> simp_all

/-- But for a blank piece it makes no difference where a piece stands. -/
theorem firstComponent?_eq_laterComponent? {s : String} (hempty : s ≠ "") (hdot : s ≠ ".") :
    firstComponent? true s = laterComponent? s := by
  unfold firstComponent? laterComponent?
  split <;> simp_all

theorem isSome_firstComponent? (s : String) : (firstComponent? true s).isSome := by
  unfold firstComponent?
  split <;> simp

theorem components_eq_steps (h : p.text ≠ "") : p.components = steps p.segments := by
  rw [components]
  cases hs : p.segments with
  | nil => rfl
  | cons first rest =>
    cases rest with
    | nil =>
      -- without a slash the only piece is the text
      have hfirst : first ≠ "" := by
        rintro rfl
        exact h (segments_eq_empty_iff.1 hs)
      simp only [steps, firstComponent?_of_ne_empty hfirst]
    | cons s rest => rfl

theorem components_of_text_eq_empty (h : p.text = "") : p.components = [] := by
  rw [components, segments_eq_empty_iff.2 h]
  rfl

/-- Only the empty text has no components. -/
theorem components_eq_nil_iff : p.components = [] ↔ p.text = "" := by
  constructor
  · intro h
    refine Decidable.byContradiction fun hne => ?_
    rw [components_eq_steps hne] at h
    obtain ⟨first, rest, hs⟩ := List.exists_cons_of_ne_nil (segments_ne_nil p)
    rw [hs, steps, List.append_eq_nil_iff] at h
    have := isSome_firstComponent? first
    rw [Option.toList_eq_nil_iff.1 h.1] at this
    cases this
  · exact components_of_text_eq_empty

theorem steps_append {l : List String} (hl : l ≠ []) (l' : List String) :
    steps (l ++ l') = steps l ++ l'.filterMap laterComponent? := by
  cases l with
  | nil => exact absurd rfl hl
  | cons first rest => simp [steps]

theorem text_of_laterComponent? {s : String} {c : Component} (h : laterComponent? s = some c) :
    c.text = s := by
  unfold laterComponent? at h
  split at h <;> cases h <;> rfl

theorem text_of_firstComponent? {s : String} {c : Component}
    (h : firstComponent? true s = some c) : c.text = "/" ∨ c.text = s := by
  unfold firstComponent? at h
  split at h <;> cases h
  · exact .inl rfl
  all_goals exact .inr rfl

/-- But for the root, a component has the text of its piece. -/
theorem text_of_mem_steps {l : List String} {c : Component} (h : c ∈ steps l) :
    c.text = "/" ∨ c.text ∈ l := by
  cases l with
  | nil => cases h
  | cons first rest =>
    rcases List.mem_append.1 h with h | h
    · refine (text_of_firstComponent? (Option.mem_toList.1 h)).imp_right fun htext => ?_
      rw [htext]
      exact List.mem_cons_self
    · obtain ⟨s, hs, hc⟩ := List.mem_filterMap.1 h
      rw [text_of_laterComponent? hc]
      exact .inr (List.mem_cons_of_mem _ hs)

theorem text_of_mem_steps_append {before after : List String} {c : Component}
    (h : c ∈ steps before ++ after.filterMap laterComponent?) :
    c.text = "/" ∨ c.text ∈ before ++ after := by
  rcases List.mem_append.1 h with h | h
  · exact (text_of_mem_steps h).imp_right (List.mem_append_left _)
  · obtain ⟨s, hs, hc⟩ := List.mem_filterMap.1 h
    rw [text_of_laterComponent? hc]
    exact .inr (List.mem_append_right _ hs)

/-- Behind a slash no piece stands for the root. -/
theorem root_notMem_filterMap_laterComponent? (l : List String) :
    Component.root ∉ l.filterMap laterComponent? := by
  intro h
  obtain ⟨s, -, hs⟩ := List.mem_filterMap.1 h
  unfold laterComponent? at hs
  split at hs <;> cases hs

/-- The components of two texts with a slash between them. -/
theorem components_append_slash (a b : String) :
    (⟨a ++ "/" ++ b⟩ : Path).components =
      steps (⟨a⟩ : Path).segments ++ (⟨b⟩ : Path).segments.filterMap laterComponent? := by
  have htext : (⟨a ++ "/" ++ b⟩ : Path).text ≠ "" := by
    intro h
    have := congrArg String.toList h
    simp at this
  rw [components_eq_steps htext, segments_append_slash, steps_append (segments_ne_nil _)]

/-- The components of pieces that have no slash and are not a lone empty one. -/
theorem components_intercalate {l : List String} (hl : l ≠ []) (hne : l ≠ [""])
    (h : ∀ s ∈ l, '/' ∉ s.toList) : (⟨"/".intercalate l⟩ : Path).components = steps l := by
  have hseg := segments_intercalate hl h
  have htext : (⟨"/".intercalate l⟩ : Path).text ≠ "" := by
    intro ht
    exact hne (hseg.symm.trans (segments_eq_empty_iff.2 ht))
  rw [components_eq_steps htext, hseg]

end Path

end PackageRouting
