/-
PackageRouting/Proofs/Wrapping.lean

How much of a source is inside the function that its chunk is wrapped as.

A copied source with a source map ends with the comment that names the map, and
the closer goes before the first such comment of the chunk.  A source may have
one of its own.  Then the closer goes before that one, and what follows it in
the source is outside the function.

Main results: `wrap_append_iff` (code in front of a comment is enclosed as a whole
exactly if it has no such comment itself) and `wrap_chunk`.
-/
import PackageRouting.Passthrough
import PackageRouting.Wrapping

namespace PackageRouting

namespace Wrapping

/-- Somewhere in the text a line starts like the comment that names a source map. -/
def HasMapComment (s : String) : Prop := mapComment.toList <:+: s.toList

instance (s : String) : Decidable (HasMapComment s) :=
  inferInstanceAs (Decidable (_ <:+: _))

variable {front : String}

/-- The first of the comments. -/
theorem HasMapComment.exists_first {s : String} (h : HasMapComment s) :
    ∃ front back, s = front ++ mapComment ++ back ∧ ¬ HasMapComment front := by
  cases hcut : Text.cutBefore mapComment.toList s.toList with
  | none => exact absurd h (Text.cutBefore_eq_none_iff.1 hcut)
  | some parts =>
    obtain ⟨a, b⟩ := parts
    obtain ⟨happend, back, rfl⟩ := Text.cutBefore_append hcut
    have hfirst := Text.notInfix_of_cutBefore (by decide) hcut
    refine ⟨String.ofList a, String.ofList back, ?_, ?_⟩
    · rw [← String.toList_inj, ← happend]
      simp
    · rwa [HasMapComment, String.toList_ofList]

/-- What follows the line end of a comment has no line end, so that no comment starts within
another one. -/
theorem cutAtComment_of_first (h : ¬ HasMapComment front) (back : String) :
    cutAtComment (front ++ mapComment ++ back) = some (front, mapComment ++ back) := by
  have hneedle : mapComment.toList = '\n' :: "//# sourceMappingURL".toList := rfl
  have hcut : Text.cutBefore mapComment.toList (front.toList ++ (mapComment ++ back).toList) =
      some (front.toList, (mapComment ++ back).toList) := by
    rw [HasMapComment, hneedle] at h
    rw [String.toList_append, hneedle]
    exact Text.cutBefore_of_notInfix (by decide) h (List.prefix_append ..)
  rw [cutAtComment, String.append_assoc, String.toList_append, hcut]
  simp

/-- **The closer goes before the first comment that names a source map.** -/
theorem wrap_of_first (h : ¬ HasMapComment front) (back : String) (minify : Bool) :
    wrap (front ++ mapComment ++ back) true minify =
      prologue ++ gap minify ++ front ++ gap minify ++ closer ++ (mapComment ++ back) := by
  rw [wrap, if_pos rfl, cutAtComment_of_first h]

/-- A closer is not the start of a comment. -/
theorem closer_append_ne (minify : Bool) (rest rest' : String) :
    gap minify ++ closer ++ rest ≠ mapComment ++ rest' := by
  intro h
  have hlist := congrArg String.toList h
  cases minify <;> simp [gap, closer, mapComment] at hlist

/-- **Code in front of a comment is enclosed as a whole iff it has no such comment itself.** -/
theorem wrap_append_iff (body rest : String) (minify : Bool) :
    wrap (body ++ (mapComment ++ rest)) true minify =
        prologue ++ gap minify ++ body ++ gap minify ++ closer ++ (mapComment ++ rest) ↔
      ¬ HasMapComment body := by
  constructor
  · intro hwrapped hcomment
    obtain ⟨front, back, rfl, hfirst⟩ := hcomment.exists_first
    rw [String.append_assoc, wrap_of_first hfirst] at hwrapped
    -- both texts go on behind `front`, one with the closer and the other with the comment
    simp only [String.append_assoc, String.append_right_inj] at hwrapped
    rw [← String.append_assoc] at hwrapped
    exact closer_append_ne minify _ _ hwrapped
  · intro h
    rw [← String.append_assoc, wrap_of_first h]

theorem ensureNewline_eq (text : String) :
    Passthrough.ensureNewline text = dropOnce "\n" text ++ "\n" := by
  rw [Passthrough.ensureNewline, dropOnce]
  cases hdrop : Text.dropBack? "\n" text with
  | some body =>
    obtain rfl := Text.dropBack?_eq_some_iff.1 hdrop
    simp
  | none =>
    refine if_neg fun hlast => ?_
    obtain ⟨body, hbody⟩ : ∃ body, text = body ++ "\n" := Text.getLast?_eq_some_iff.1 hlast
    rw [Text.dropBack?_eq_some_iff.2 hbody] at hdrop
    cases hdrop

/-- The last line of a copied source ends where the comment begins. -/
theorem code_chunk (input : Path) (name text : String) :
    (Passthrough.chunk true input name text).code =
      dropOnce "\n" text ++ (mapComment ++ ("=" ++ name ++ ".map\n")) := by
  show Passthrough.ensureNewline text ++ Passthrough.mapComment name = _
  rw [ensureNewline_eq, String.append_assoc]
  congr 1

/-- **A source is enclosed exactly up to its first comment that names a source map.**  The wrapped
chunk of a source without such a comment is the whole source between the opening and the closer, and
after the closer the comment of the chunk.  Of a source with one, what stands before it is between
the opening and the closer, and what follows is outside the function. -/
theorem wrap_chunk (input : Path) (name text : String) (minify : Bool) :
    let body := dropOnce "\n" text
    let comment := mapComment ++ "=" ++ name ++ ".map\n"
    let wrapped := wrap (Passthrough.chunk true input name text).code true minify
    (wrapped = prologue ++ gap minify ++ body ++ gap minify ++ closer ++ comment ↔
      ¬ HasMapComment body) ∧
    ∀ front back, body = front ++ mapComment ++ back → ¬ HasMapComment front →
      wrapped = prologue ++ gap minify ++ front ++ gap minify ++ closer ++ mapComment ++ back ++
        comment := by
  intro body comment wrapped
  have hcomment : comment = mapComment ++ ("=" ++ name ++ ".map\n") := by
    simp only [comment, String.append_assoc]
  have hwrapped : wrapped = wrap (body ++ comment) true minify := by
    rw [hcomment, ← code_chunk input]
  constructor
  · rw [hwrapped, hcomment]
    exact wrap_append_iff body _ minify
  · intro front back hbody hfirst
    rw [hwrapped, hbody, String.append_assoc, wrap_of_first hfirst]
    simp only [String.append_assoc]

/-- A source that was built before: its last call is outside the function. -/
theorem wrap_chunk_builtBefore :
    let text := "a()\n//# sourceMappingURL=x.map\nb()\n"
    dropOnce "\n" text = "a()" ++ mapComment ++ "=x.map\nb()" ∧ ¬ HasMapComment "a()" ∧
    wrap (Passthrough.chunk true ⟨"a.js"⟩ "a.js" text).code true false =
      prologue ++ "\na()\n" ++ closer ++ "\n//# sourceMappingURL=x.map\nb()" ++
        "\n//# sourceMappingURL=a.js.map\n" := by
  intro text
  have hbody : dropOnce "\n" text = "a()" ++ mapComment ++ "=x.map\nb()" := by decide +kernel
  have hfirst : ¬ HasMapComment "a()" := by decide +kernel
  obtain ⟨-, hpart⟩ := wrap_chunk ⟨"a.js"⟩ "a.js" text false
  exact ⟨hbody, hfirst, (hpart _ _ hbody hfirst).trans (by decide +kernel)⟩

/-- Not every source is enclosed as a whole. -/
theorem not_forall_wrap_chunk :
    ¬ ∀ (input : Path) (name text : String) (minify : Bool),
      wrap (Passthrough.chunk true input name text).code true minify =
        prologue ++ gap minify ++ dropOnce "\n" text ++ gap minify ++ closer ++
          ("\n//# sourceMappingURL=" ++ name ++ ".map\n") := by
  intro h
  exact absurd (h ⟨"a.js"⟩ "a.js" "a()\n//# sourceMappingURL=x.map\nb()\n" true)
    (by decide +kernel)

end Wrapping

end PackageRouting
