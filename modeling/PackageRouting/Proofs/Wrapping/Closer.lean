/-
PackageRouting/Proofs/Wrapping/Closer.lean

When the closer is commented out.

Without minifying, the closer starts a line of its own.  With it, the closer goes
onto the last line of what is enclosed, whatever stands there: a line comment
takes the closer in, and the function is never closed.  Only lines that are
comments as a whole are looked at here; a single line of code is none, since the
opening is in front of it.

Main result: `closerCommentedOut_iff`.
-/
import Mathlib.Data.List.DropRight
import PackageRouting.Proofs.Wrapping.Parts

namespace PackageRouting

/-! ### Lines -/

namespace Text

variable {s t : String} {line rest : List Char} {c : Char}

/-- What follows the last line end. -/
def lastLine (s : String) : List Char := s.toList.rtakeWhile (· ≠ '\n')

/-- What stands before the first line end. -/
def firstLine (s : String) : List Char := s.toList.takeWhile (· ≠ '\n')

theorem lastLine_append_of_notMem (s : String) (h : '\n' ∉ t.toList) :
    lastLine (s ++ t) = lastLine s ++ t.toList := by
  have hall : ∀ c ∈ t.toList.reverse, decide (c ≠ '\n') = true := by
    intro c hc
    exact decide_eq_true fun heq => h (heq ▸ List.mem_reverse.1 hc)
  rw [lastLine, String.toList_append, List.rtakeWhile, List.reverse_append,
    List.takeWhile_append_of_pos hall, List.reverse_append, List.reverse_reverse]
  rfl

theorem lastLine_append_of_mem (s : String) (h : '\n' ∈ t.toList) :
    lastLine (s ++ t) = lastLine t := by
  have hstops : ¬ (t.toList.reverse.takeWhile (· ≠ '\n')).length = t.toList.reverse.length := by
    intro hlength
    have hself := (List.takeWhile_prefix (· ≠ '\n')).eq_of_length hlength
    exact of_decide_eq_true (List.takeWhile_eq_self_iff.1 hself _ (List.mem_reverse.2 h)) rfl
  rw [lastLine, String.toList_append, List.rtakeWhile, List.reverse_append,
    List.takeWhile_append, if_neg hstops]
  rfl

/-- The line starts, after blanks, with the mark of a comment. -/
def IsLineComment (line : List Char) : Prop :=
  ['/', '/'] <+: line.dropWhile Char.isWhitespace

instance (line : List Char) : Decidable (IsLineComment line) :=
  inferInstanceAs (Decidable (_ <+: _))

/-- What starts with another character neither makes a comment of the line in front nor unmakes
it. -/
theorem isLineComment_append_cons (hblank : c.isWhitespace = false) (hc : c ≠ '/') :
    IsLineComment (line ++ c :: rest) ↔ IsLineComment line := by
  induction line with
  | nil =>
    simp only [IsLineComment, List.nil_append, List.dropWhile_cons, hblank, List.dropWhile_nil,
      List.cons_prefix_cons, hc.symm, Bool.false_eq_true, if_false, false_and, List.prefix_nil]
    simp
  | cons d line ih =>
    rw [IsLineComment, IsLineComment, List.cons_append, List.dropWhile_cons, List.dropWhile_cons]
    split
    · exact ih
    · cases line with
      | nil => simp [List.cons_prefix_cons, hc.symm]
      | cons e line => simp [List.cons_prefix_cons]

/-- The text has several lines, and the last one is a comment. -/
def EndsInComment (s : String) : Prop := '\n' ∈ s.toList ∧ IsLineComment (lastLine s)

instance (s : String) : Decidable (EndsInComment s) := inferInstanceAs (Decidable (_ ∧ _))

/-- A semicolon at the end is part of the comment. -/
theorem endsInComment_append_semicolon : EndsInComment (s ++ ";") ↔ EndsInComment s := by
  rw [EndsInComment, EndsInComment, lastLine_append_of_notMem s (by decide)]
  refine and_congr ?_ (isLineComment_append_cons (by decide) (by decide))
  simp

end Text

namespace Wrapping

open Text (lastLine firstLine IsLineComment EndsInComment)

variable {hasSourceMap minify : Bool} {code body tail : String}

/-! ### The line of the closer -/

/-- The line of the wrapped text that has the closer behind the body. -/
def closerLine (minify : Bool) (body tail : String) : List Char :=
  lastLine (prologue ++ gap minify ++ body ++ gap minify) ++ firstLine (closer ++ tail)

/-- The closer of the wrapped code is in a line comment. -/
def CloserCommentedOut (code : String) (hasSourceMap minify : Bool) : Prop :=
  ∃ body tail, Parts hasSourceMap code body tail ∧
    wrap code hasSourceMap minify =
      prologue ++ gap minify ++ body ++ gap minify ++ closer ++ tail ∧
    IsLineComment (closerLine minify body tail)

/-- **The line of the closer is a comment iff the closer goes onto a comment of the body.** -/
theorem isLineComment_closerLine (minify : Bool) (body tail : String) :
    IsLineComment (closerLine minify body tail) ↔ minify ∧ EndsInComment body := by
  have hcloser : ∃ rest, firstLine (closer ++ tail) = '\x7d' :: rest := by
    rw [firstLine, String.toList_append]
    exact ⟨_, rfl⟩
  obtain ⟨rest, hrest⟩ := hcloser
  rw [closerLine, hrest, Text.isLineComment_append_cons (by decide) (by decide)]
  cases minify with
  | false =>
    -- the gap starts a new line
    rw [Text.lastLine_append_of_mem _ (by decide)]
    simp only [Bool.false_eq_true, false_and, iff_false]
    decide +kernel
  | true =>
    have hgap : gap true = "" := rfl
    rw [hgap, String.append_empty, String.append_empty, EndsInComment]
    by_cases hline : '\n' ∈ body.toList
    · rw [Text.lastLine_append_of_mem _ hline]
      simp only [hline, true_and]
    · -- the opening is on the same line
      rw [Text.lastLine_append_of_notMem _ hline]
      simp only [hline, false_and, and_false, iff_false]
      intro hcomment
      obtain ⟨front, hfront⟩ := hcomment
      cases hfront

theorem closerCommentedOut_of_parts (h : Parts hasSourceMap code body tail) :
    CloserCommentedOut code hasSourceMap minify ↔ minify ∧ EndsInComment body := by
  rw [← isLineComment_closerLine minify body tail]
  constructor
  · rintro ⟨body', tail', h', -, hcomment⟩
    obtain ⟨rfl, rfl⟩ := h.unique h'
    exact hcomment
  · intro hcomment
    exact ⟨body, tail, h, wrap_of_parts h, hcomment⟩

/-- The parts of a copy without a source map: the source without its last line end and
semicolon, and a line end. -/
theorem parts_chunk (input : Path) (name text : String) :
    Parts false (Passthrough.chunk false input name text).code
      (dropOnce ";" (dropOnce "\n" text)) "\n" := by
  have hcode : (Passthrough.chunk false input name text).code = dropOnce "\n" text ++ "\n" :=
    ensureNewline_eq text
  rw [hcode]
  refine .atEnd (fun h => nomatch h.1) (.inl ⟨rfl, _, rfl⟩) ?_
  exact isUpToSemicolon_dropOnce _ _

theorem endsInComment_dropOnce (s : String) :
    EndsInComment (dropOnce ";" s) ↔ EndsInComment s := by
  by_cases hsemi : EndsWith ";" s
  · obtain ⟨rest, rfl⟩ := hsemi
    rw [dropOnce_append, Text.endsInComment_append_semicolon]
  · rw [dropOnce_of_not_endsWith hsemi]

/-- **The closer is commented out exactly if it goes, by minifying, onto a comment**: the code that is
enclosed has several lines, and the last one starts with `//`.  A copied source without a source map
has its closer commented out exactly if minifying is on and the last of its several lines is such a
comment. -/
theorem closerCommentedOut_iff (code : String) (hasSourceMap minify : Bool) :
    (CloserCommentedOut code hasSourceMap minify ↔
      minify ∧ ∃ body tail, Parts hasSourceMap code body tail ∧ EndsInComment body) ∧
    ∀ input name text,
      CloserCommentedOut (Passthrough.chunk false input name text).code false minify ↔
        minify ∧ EndsInComment (dropOnce "\n" text) := by
  refine ⟨⟨?_, ?_⟩, fun input name text => ?_⟩
  · rintro ⟨body, tail, h, -, hcomment⟩
    obtain ⟨hminify, hend⟩ := (isLineComment_closerLine minify body tail).1 hcomment
    exact ⟨hminify, body, tail, h, hend⟩
  · rintro ⟨hminify, body, tail, h, hend⟩
    exact (closerCommentedOut_of_parts h).2 ⟨hminify, hend⟩
  · rw [closerCommentedOut_of_parts (parts_chunk input name text), endsInComment_dropOnce]

/-- Under the default options a copied source that ends in a comment is not closed. -/
theorem not_forall_not_closerCommentedOut :
    ¬ ∀ code hasSourceMap minify, ¬ CloserCommentedOut code hasSourceMap minify := by
  intro h
  have hcopy := parts_chunk ⟨"a.js"⟩ "a.js" "a()\n// the end\n"
  have hend : EndsInComment (dropOnce ";" (dropOnce "\n" "a()\n// the end\n")) := by decide +kernel
  exact h _ _ ({} : Options).minify ((closerCommentedOut_of_parts hcopy).2 ⟨rfl, hend⟩)

end Wrapping

end PackageRouting
