/-
PackageRouting/Text/Cut.lean

Taking text apart: a known front or back is dropped, or the text is cut at the
first place where a needle stands, or at the last place where a separator
stands.  Every cut loses nothing, and each function below comes with the lemma
that says so; nothing outside this file unfolds them.

Main results: `dropFront?_eq_some_iff` and `dropBack?_eq_some_iff` (a drop
succeeds exactly on the texts that have the given end), `cutBefore_append` and
`cutAtLast_append` (the parts put together again are the text),
`cutBefore_of_notInfix` and `cutAtLast_of_notMem` (two parts with a needle or a
separator between them are cut apart again, if the first has no needle or the
second no separator).
-/

namespace PackageRouting.Text

/-! ### Known ends -/

/-- What follows the front `p` in `s`, when `s` starts with `p`. -/
def dropFront? (p s : String) : Option String :=
  (p.toList.isPrefixOf? s.toList).map String.ofList

/-- What precedes the back `q` in `s`, when `s` ends with `q`. -/
def dropBack? (q s : String) : Option String :=
  (q.toList.isSuffixOf? s.toList).map String.ofList

theorem isPrefixOf?_eq_some_iff {p s r : List Char} :
    p.isPrefixOf? s = some r ↔ s = p ++ r := by
  induction p generalizing s with
  | nil =>
    show some s = some r ↔ s = r
    exact Option.some_inj
  | cons c p ih =>
    cases s with
    | nil =>
      show none = some r ↔ _
      simp
    | cons d s =>
      show (if c == d then p.isPrefixOf? s else none) = some r ↔ _
      by_cases h : c = d
      · subst h
        simp [ih]
      · simp [h, Ne.symm h]

theorem dropFront?_eq_some_iff {p s r : String} :
    dropFront? p s = some r ↔ s = p ++ r := by
  simp only [dropFront?, Option.map_eq_some_iff, isPrefixOf?_eq_some_iff]
  constructor
  · rintro ⟨l, hl, rfl⟩
    rw [← String.toList_inj]
    simp [hl]
  · rintro rfl
    exact ⟨r.toList, by simp, by simp⟩

theorem dropBack?_eq_some_iff {q s r : String} :
    dropBack? q s = some r ↔ s = r ++ q := by
  show ((q.toList.reverse.isPrefixOf? s.toList.reverse).map List.reverse).map String.ofList =
    some r ↔ _
  simp only [Option.map_eq_some_iff, isPrefixOf?_eq_some_iff]
  constructor
  · rintro ⟨l, ⟨m, hm, rfl⟩, rfl⟩
    rw [← String.toList_inj]
    have := congrArg List.reverse hm
    simpa using this
  · rintro rfl
    exact ⟨r.toList, ⟨r.toList.reverse, by simp, by simp⟩, by simp⟩

/-- The last character of a text is what follows some front. -/
theorem getLast?_eq_some_iff {s : String} {c : Char} :
    s.toList.getLast? = some c ↔ ∃ front : String, s = front ++ String.singleton c := by
  rw [List.getLast?_eq_some_iff]
  constructor
  · rintro ⟨front, hs⟩
    refine ⟨String.ofList front, ?_⟩
    rw [← String.toList_inj, hs]
    simp
  · rintro ⟨front, rfl⟩
    exact ⟨front.toList, by simp⟩

/-- The text without every copy of the character `c` that stands at its end. -/
def trimBack (c : Char) (s : String) : String :=
  String.ofList (s.toList.reverse.dropWhile (· == c)).reverse

/-- One copy of `q` after another is taken off the end, at most `fuel` times. -/
def trimCopies (q : String) : Nat → String → String
  | 0, s => s
  | fuel + 1, s =>
    match dropBack? q s with
    | some r => trimCopies q fuel r
    | none => s

/-- The text without every copy of `q` that stands at its end.  A copy that is not empty makes
the text shorter, so as many turns as the text has characters are enough. -/
def trimAllBack (q s : String) : String :=
  trimCopies q s.length s

/-! ### Cuts in the middle -/

/-- The text before the first place where `needle` starts, and the text from there on. -/
def cutBefore (needle : List Char) : List Char → Option (List Char × List Char)
  | [] => if needle.isEmpty then some ([], []) else none
  | c :: rest =>
    if needle.isPrefixOf (c :: rest) then some ([], c :: rest)
    else (cutBefore needle rest).map fun (a, b) => (c :: a, b)

theorem cutBefore_append {needle s a b : List Char} (h : cutBefore needle s = some (a, b)) :
    a ++ b = s ∧ needle <+: b := by
  induction s generalizing a with
  | nil =>
    simp only [cutBefore] at h
    split at h
    · simp_all
    · simp at h
  | cons c rest ih =>
    simp only [cutBefore] at h
    split at h
    · next hp =>
      simp only [Option.some.injEq, Prod.mk.injEq] at h
      obtain ⟨rfl, rfl⟩ := h
      exact ⟨rfl, by simpa using hp⟩
    · simp only [Option.map_eq_some_iff, Prod.mk.injEq, Prod.exists] at h
      obtain ⟨a', b', hab, rfl, rfl⟩ := h
      obtain ⟨hs, hp⟩ := ih hab
      exact ⟨by simp [hs], hp⟩

theorem notInfix_of_cutBefore {needle s a b : List Char} (hneedle : needle ≠ [])
    (h : cutBefore needle s = some (a, b)) : ¬ needle <:+: a := by
  induction s generalizing a with
  | nil =>
    simp only [cutBefore] at h
    split at h
    · simp_all
    · cases h
  | cons c rest ih =>
    have hs := (cutBefore_append h).1
    simp only [cutBefore] at h
    split at h
    · obtain ⟨rfl, -⟩ := Prod.mk.inj (Option.some.inj h)
      exact fun hwithin => hneedle (List.infix_nil.1 hwithin)
    · next hstarts =>
      obtain ⟨⟨a', b'⟩, hcut, heq⟩ := Option.map_eq_some_iff.1 h
      obtain ⟨rfl, rfl⟩ := Prod.mk.inj heq
      intro hwithin
      rcases List.infix_cons_iff.1 hwithin with hfirst | hlater
      · exact hstarts (List.isPrefixOf_iff_prefix.2 (hs ▸ hfirst.trans (List.prefix_append ..)))
      · exact ih hcut hlater

/-- **A needle that starts with a character it has nowhere else is found where it stands first**:
two places where it stands do not overlap. -/
theorem cutBefore_of_notInfix {c : Char} {tail a b : List Char} (hc : c ∉ tail)
    (ha : ¬ c :: tail <:+: a) (hb : c :: tail <+: b) :
    cutBefore (c :: tail) (a ++ b) = some (a, b) := by
  induction a with
  | nil =>
    obtain ⟨rest, rfl⟩ := hb
    simp [cutBefore]
  | cons x a ih =>
    have hstarts : ¬ c :: tail <+: x :: a ++ b := by
      intro h
      rcases Nat.le_total (c :: tail).length (x :: a).length with hlen | hlen
      · exact ha (List.prefix_of_prefix_length_le h (List.prefix_append ..) hlen).isInfix
      · -- the rest of the needle is the front of `b`, and so starts with `c`
        obtain ⟨rest, hrest⟩ := List.prefix_of_prefix_length_le (List.prefix_append ..) h hlen
        rw [← hrest, List.prefix_append_right_inj] at h
        cases rest with
        | nil =>
          rw [List.append_nil] at hrest
          exact ha (hrest ▸ List.infix_refl _)
        | cons y rest =>
          obtain ⟨-, htail⟩ := List.cons.inj hrest
          obtain ⟨more, rfl⟩ := hb
          obtain rfl : y = c := (List.cons_prefix_cons.1 h).1
          exact hc (htail ▸ List.mem_append_right _ List.mem_cons_self)
    have hcut := ih fun hwithin => ha (hwithin.trans (List.suffix_cons x a).isInfix)
    show (if (c :: tail).isPrefixOf (x :: a ++ b) then _ else _) = _
    rw [if_neg (mt List.isPrefixOf_iff_prefix.1 hstarts)]
    show (cutBefore (c :: tail) (a ++ b)).map _ = _
    rw [hcut]
    rfl

theorem cutBefore_eq_none_iff {needle s : List Char} :
    cutBefore needle s = none ↔ ¬ needle <:+: s := by
  induction s with
  | nil => simp [cutBefore]
  | cons c rest ih =>
    rw [List.infix_cons_iff, not_or, ← ih, ← List.isPrefixOf_iff_prefix]
    simp only [cutBefore]
    split <;> simp_all

/-- The text before the last `sep`, and the text after it. -/
def cutAtLast (sep : Char) : List Char → Option (List Char × List Char)
  | [] => none
  | c :: rest =>
    match cutAtLast sep rest with
    | some (a, b) => some (c :: a, b)
    | none => if c = sep then some ([], rest) else none

theorem cutAtLast_append {sep : Char} {s a b : List Char} (h : cutAtLast sep s = some (a, b)) :
    a ++ sep :: b = s := by
  induction s generalizing a with
  | nil => simp [cutAtLast] at h
  | cons c rest ih =>
    simp only [cutAtLast] at h
    split at h
    · next a' b' hr =>
      simp only [Option.some.injEq, Prod.mk.injEq] at h
      obtain ⟨rfl, rfl⟩ := h
      simp [ih hr]
    · split at h
      · simp_all
      · simp at h

theorem cutAtLast_eq_none {sep : Char} {s : List Char} (h : sep ∉ s) : cutAtLast sep s = none := by
  induction s with
  | nil => rfl
  | cons c rest ih =>
    obtain ⟨hc, hrest⟩ := not_or.1 (mt List.mem_cons.2 h)
    rw [cutAtLast, ih hrest]
    exact if_neg (Ne.symm hc)

/-- A separator with none behind it is the last one. -/
theorem cutAtLast_of_notMem {sep : Char} {b : List Char} (h : sep ∉ b) (a : List Char) :
    cutAtLast sep (a ++ sep :: b) = some (a, b) := by
  induction a with
  | nil =>
    rw [List.nil_append, cutAtLast, cutAtLast_eq_none h]
    exact if_pos rfl
  | cons c a ih => rw [List.cons_append, cutAtLast, ih]

end PackageRouting.Text
