/-
PackageRouting/Proofs/Wrapping/Parts.lean

Wrapping loses no code.

Wrapping takes code apart in two (`Parts`): what the function encloses, and what
stays behind the closer.  The cut is before the comment that names the source
map, or else before the line end, where a semicolon may go.  The parts can be
read off the wrapped text again: the closer and what surrounds it is no piece of
such a comment, so a comment in the wrapped text was in the code, and the first
one tells where the closer stands.  Without a comment the closer stands at the
end.

Main results: `enclose_injective` (the wrapped text determines the parts) and
`wrap_keepsCode`.
-/
import Mathlib.Data.List.Infix
import PackageRouting.Proofs.Wrapping

namespace PackageRouting

namespace Wrapping

variable {hasSourceMap minify : Bool} {code code' body body' tail tail' q s : String}

/-! ### Ends -/

/-- The text ends with `q`. -/
def EndsWith (q s : String) : Prop := ∃ rest, s = rest ++ q

theorem endsWith_iff : EndsWith q s ↔ Text.dropBack? q s ≠ none := by
  simp only [EndsWith, Option.ne_none_iff_exists', Text.dropBack?_eq_some_iff]

theorem dropOnce_append (rest : String) : dropOnce q (rest ++ q) = rest := by
  rw [dropOnce, Text.dropBack?_eq_some_iff.2 rfl, Option.getD_some]

theorem dropOnce_of_not_endsWith (h : ¬ EndsWith q s) : dropOnce q s = s := by
  rw [endsWith_iff, not_not] at h
  rw [dropOnce, h, Option.getD_none]

/-- The line end at the end of the code, or nothing. -/
def IsLastLineEnd (code tail : String) : Prop :=
  tail = "\n" ∧ EndsWith "\n" code ∨ tail = "" ∧ ¬ EndsWith "\n" code

/-- The texts in a row are the code, but for a semicolon between them that the code may have. -/
def IsUpToSemicolon (code body tail : String) : Prop :=
  code = body ++ ";" ++ tail ∨ code = body ++ tail ∧ ¬ EndsWith ";" body

theorem isUpToSemicolon_dropOnce (rest tail : String) :
    IsUpToSemicolon (rest ++ tail) (dropOnce ";" rest) tail := by
  by_cases hsemi : EndsWith ";" rest
  · obtain ⟨body, rfl⟩ := hsemi
    rw [dropOnce_append]
    exact .inl rfl
  · rw [dropOnce_of_not_endsWith hsemi]
    exact .inr ⟨rfl, hsemi⟩

/-! ### Parts -/

/-- The code in two parts, the first to be enclosed and the second to stay behind the closer. -/
inductive Parts (hasSourceMap : Bool) (code body tail : String) : Prop
  /-- The comment that names the source map stays behind, with all that follows it. -/
  | atComment (hmap : hasSourceMap) (hcode : code = body ++ tail)
      (hcomment : ∃ rest, tail = mapComment ++ rest) (hfirst : ¬ HasMapComment body)
  /-- Without a comment the line end stays behind. -/
  | atEnd (hplain : ¬ (hasSourceMap ∧ HasMapComment code)) (htail : IsLastLineEnd code tail)
      (hbody : IsUpToSemicolon code body tail)

/-- The text of a function with a body that is called at once, and what stays behind. -/
def enclose (minify : Bool) (body tail : String) : String :=
  prologue ++ gap minify ++ body ++ gap minify ++ closer ++ tail

/-- **Every code has parts.** -/
theorem exists_parts (hasSourceMap : Bool) (code : String) :
    ∃ body tail, Parts hasSourceMap code body tail := by
  by_cases hcomment : hasSourceMap ∧ HasMapComment code
  · obtain ⟨hmap, hcomment⟩ := hcomment
    obtain ⟨front, back, rfl, hfirst⟩ := hcomment.exists_first
    exact ⟨front, mapComment ++ back, .atComment hmap (String.append_assoc ..) ⟨back, rfl⟩ hfirst⟩
  · by_cases hend : EndsWith "\n" code
    · obtain ⟨rest, rfl⟩ := hend
      exact ⟨_, _, .atEnd hcomment (.inl ⟨rfl, rest, rfl⟩) (isUpToSemicolon_dropOnce rest "\n")⟩
    · have hbody := isUpToSemicolon_dropOnce code ""
      rw [String.append_empty] at hbody
      exact ⟨_, _, .atEnd hcomment (.inr ⟨rfl, hend⟩) hbody⟩

/-- Code without a comment is enclosed up to its line end. -/
theorem wrapPlain_eq (htail : IsLastLineEnd code tail) (hbody : IsUpToSemicolon code body tail) :
    wrapPlain code (gap minify) = enclose minify body tail := by
  have hrest : ∃ rest, code = rest ++ tail ∧ dropOnce ";" rest = body := by
    rcases hbody with rfl | ⟨rfl, hsemi⟩
    · exact ⟨body ++ ";", rfl, dropOnce_append body⟩
    · exact ⟨body, rfl, dropOnce_of_not_endsWith hsemi⟩
  obtain ⟨rest, rfl, rfl⟩ := hrest
  rw [wrapPlain]
  rcases htail with ⟨rfl, -⟩ | ⟨rfl, hend⟩
  · rw [Text.dropBack?_eq_some_iff.2 rfl]
    rfl
  · rw [String.append_empty, endsWith_iff, not_not] at hend
    rw [String.append_empty, hend]
    rfl

/-- **The wrapped text of code is that of its parts.** -/
theorem wrap_of_parts (h : Parts hasSourceMap code body tail) :
    wrap code hasSourceMap minify = enclose minify body tail := by
  cases h with
  | atComment hmap hcode hcomment hfirst =>
    obtain rfl : hasSourceMap = true := hmap
    obtain ⟨rest, rfl⟩ := hcomment
    rw [hcode, ← String.append_assoc, wrap_of_first hfirst]
    rfl
  | atEnd hplain htail hbody =>
    have hcut : (if hasSourceMap then cutAtComment code else none) = none := by
      split
      · next hmap =>
        have hnone : Text.cutBefore mapComment.toList code.toList = none :=
          Text.cutBefore_eq_none_iff.2 fun hcomment => hplain ⟨hmap, hcomment⟩
        rw [cutAtComment, hnone, Option.map_none]
      · rfl
    rw [wrap, hcut]
    exact wrapPlain_eq htail hbody

/-! ### Reading the parts off again -/

/-- A comment in two texts in a row is in one of them, if the second does not start with what a
comment ends with. -/
theorem not_hasMapComment_append {s t : String} (hs : ¬ HasMapComment s) (ht : ¬ HasMapComment t)
    (hend : ∀ l ∈ mapComment.toList.tails, l <+: t.toList → l = []) :
    ¬ HasMapComment (s ++ t) := by
  rw [HasMapComment, String.toList_append, List.infix_append_iff]
  rintro (h | h | ⟨front, back, hcomment, hfront, hback⟩)
  · exact hs h
  · exact ht h
  · have hsuffix : back <:+ mapComment.toList := ⟨front, hcomment.symm⟩
    obtain rfl := hend back ((List.mem_tails _ _).2 hsuffix) hback
    rw [List.append_nil] at hcomment
    rw [HasMapComment, hcomment] at hs
    exact hs hfront.isInfix

/-- The closer and a line end make no comment. -/
theorem not_hasMapComment_closed (minify : Bool) (h : ¬ HasMapComment body)
    (htail : tail = "\n" ∨ tail = "") : ¬ HasMapComment (body ++ (gap minify ++ closer ++ tail)) := by
  apply not_hasMapComment_append h
  · rcases htail with rfl | rfl <;> cases minify <;> decide +kernel
  · rcases htail with rfl | rfl <;> cases minify <;> decide +kernel

theorem Parts.not_hasMapComment (h : Parts hasSourceMap code body tail) (hmap : hasSourceMap) :
    ¬ HasMapComment body := by
  cases h with
  | atComment _ _ _ hfirst => exact hfirst
  | atEnd hplain _ hbody =>
    intro hcomment
    refine hplain ⟨hmap, List.IsInfix.trans hcomment ?_⟩
    rcases hbody with rfl | ⟨rfl, -⟩
    · rw [String.append_assoc, String.toList_append]
      exact (List.prefix_append ..).isInfix
    · rw [String.toList_append]
      exact (List.prefix_append ..).isInfix

/-- What stays behind is a comment with what follows it, a line end, or nothing. -/
theorem Parts.tail_cases (h : Parts hasSourceMap code body tail) :
    (hasSourceMap ∧ ∃ rest, tail = mapComment ++ rest) ∨ tail = "\n" ∨ tail = "" := by
  cases h with
  | atComment hmap _ hcomment _ => exact .inl ⟨hmap, hcomment⟩
  | atEnd _ htail _ => exact .inr (htail.imp And.left And.left)

/-- The comment of the code is the first one of the wrapped text. -/
theorem cutAtComment_enclosed (h : Parts hasSourceMap code body (mapComment ++ s))
    (hmap : hasSourceMap) :
    cutAtComment (body ++ (gap minify ++ closer ++ (mapComment ++ s))) =
      some (body ++ (gap minify ++ closer), mapComment ++ s) := by
  have hfirst := not_hasMapComment_closed minify (h.not_hasMapComment hmap) (.inr rfl)
  rw [String.append_empty] at hfirst
  rw [← String.append_assoc, ← String.append_assoc, cutAtComment_of_first hfirst]

/-- Without a comment the wrapped text has none. -/
theorem cutAtComment_closed (h : Parts hasSourceMap code body tail) (hmap : hasSourceMap)
    (htail : tail = "\n" ∨ tail = "") :
    cutAtComment (body ++ (gap minify ++ closer ++ tail)) = none := by
  have hnone := Text.cutBefore_eq_none_iff.2
    (not_hasMapComment_closed minify (h.not_hasMapComment hmap) htail)
  rw [cutAtComment, hnone, Option.map_none]

/-- **The wrapped text determines the parts.** -/
theorem enclose_injective (h : Parts hasSourceMap code body tail)
    (h' : Parts hasSourceMap code' body' tail')
    (heq : enclose minify body tail = enclose minify body' tail') :
    body = body' ∧ tail = tail' := by
  have hrest : body ++ (gap minify ++ closer ++ tail) =
      body' ++ (gap minify ++ closer ++ tail') := by
    simpa only [enclose, String.append_assoc, String.append_right_inj] using heq
  have hcut := congrArg cutAtComment hrest
  rcases h.tail_cases with ⟨hmap, s, rfl⟩ | htail <;>
    rcases h'.tail_cases with ⟨hmap', s', rfl⟩ | htail'
  · -- both are cut at the first comment
    rw [cutAtComment_enclosed h hmap, cutAtComment_enclosed h' hmap'] at hcut
    obtain ⟨hbody, hcomment⟩ := Prod.mk.inj (Option.some.inj hcut)
    exact ⟨(String.append_left_inj _).1 hbody, hcomment⟩
  · rw [cutAtComment_enclosed h hmap, cutAtComment_closed h' hmap htail'] at hcut
    cases hcut
  · rw [cutAtComment_closed h hmap' htail, cutAtComment_enclosed h' hmap'] at hcut
    cases hcut
  · -- the last character tells whether a line end stays behind
    have hlast := congrArg (fun s => s.toList.getLast?) hrest
    rcases htail with rfl | rfl <;> rcases htail' with rfl | rfl
    · exact ⟨(String.append_left_inj _).1 hrest, rfl⟩
    · simp [closer] at hlast
    · simp [closer] at hlast
    · exact ⟨(String.append_left_inj _).1 hrest, rfl⟩

/-- Code is taken apart in one way only. -/
theorem Parts.unique (h : Parts hasSourceMap code body tail)
    (h' : Parts hasSourceMap code body' tail') : body = body' ∧ tail = tail' := by
  have heq : enclose true body tail = enclose true body' tail' :=
    (wrap_of_parts h).symm.trans (wrap_of_parts h')
  exact enclose_injective h h' heq

/-! ### Nothing is lost -/

/-- The first is the second with a semicolon more, before the line end or at the end. -/
def HasSemicolonMore (code code' : String) : Prop :=
  ∃ body tail, IsLastLineEnd code' tail ∧ code = body ++ ";" ++ tail ∧ code' = body ++ tail

/-- Codes with the same parts differ in the semicolon at most. -/
theorem eq_or_hasSemicolonMore (h : Parts hasSourceMap code body tail)
    (h' : Parts hasSourceMap code' body tail) :
    code = code' ∨ HasSemicolonMore code code' ∨ HasSemicolonMore code' code := by
  have hcomment : ∀ rest, mapComment ++ rest ≠ "\n" ∧ mapComment ++ rest ≠ "" := by
    intro rest
    constructor <;> intro heq <;> simpa [mapComment] using congrArg String.toList heq
  cases h with
  | atComment _ hcode hrest _ =>
    cases h' with
    | atComment _ hcode' _ _ => exact .inl (hcode.trans hcode'.symm)
    | atEnd _ htail' _ =>
      obtain ⟨rest, rfl⟩ := hrest
      exact absurd (htail'.imp And.left And.left) (not_or.2 (hcomment rest))
  | atEnd _ htail hbody =>
    cases h' with
    | atComment _ _ hrest _ =>
      obtain ⟨rest, rfl⟩ := hrest
      exact absurd (htail.imp And.left And.left) (not_or.2 (hcomment rest))
    | atEnd _ htail' hbody' =>
      rcases hbody with hcode | ⟨hcode, -⟩ <;> rcases hbody' with hcode' | ⟨hcode', -⟩
      · exact .inl (hcode.trans hcode'.symm)
      · exact .inr (.inl ⟨body, tail, htail', hcode, hcode'⟩)
      · exact .inr (.inr ⟨body, tail, htail, hcode', hcode⟩)
      · exact .inl (hcode.trans hcode'.symm)

/-- **Wrapping loses no code.**  The wrapped text of any code encloses one of its parts and has the
other behind the closer, and two codes with one wrapped text are equal, but for a semicolon before
the line end or at the end of one of them. -/
theorem wrap_keepsCode (hasSourceMap minify : Bool) :
    (∀ code, ∃ body tail, Parts hasSourceMap code body tail ∧
      wrap code hasSourceMap minify =
        prologue ++ gap minify ++ body ++ gap minify ++ closer ++ tail) ∧
    ∀ code code', wrap code hasSourceMap minify = wrap code' hasSourceMap minify →
      code = code' ∨ HasSemicolonMore code code' ∨ HasSemicolonMore code' code := by
  constructor
  · intro code
    obtain ⟨body, tail, h⟩ := exists_parts hasSourceMap code
    exact ⟨body, tail, h, wrap_of_parts h⟩
  · intro code code' heq
    obtain ⟨body, tail, h⟩ := exists_parts hasSourceMap code
    obtain ⟨body', tail', h'⟩ := exists_parts hasSourceMap code'
    rw [wrap_of_parts h, wrap_of_parts h'] at heq
    obtain ⟨rfl, rfl⟩ := enclose_injective h h' heq
    exact eq_or_hasSemicolonMore h h'

/-- A semicolon is all that two codes with one wrapped text differ in. -/
theorem wrap_keepsCode_terminated :
    let code := "\x7d)()\na();\n"
    let code' := "\x7d)()\na()\n"
    wrap code true true = wrap code' true true ∧
      (code = code' ∨ HasSemicolonMore code code' ∨ HasSemicolonMore code' code) := by
  intro code code'
  have heq : wrap code true true = wrap code' true true := by decide +kernel
  exact ⟨heq, (wrap_keepsCode true true).2 code code' heq⟩

end Wrapping

end PackageRouting
