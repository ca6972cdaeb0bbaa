/-
PackageRouting/Proofs/Pattern.lean

Reading patterns.

A text is read as a pattern exactly if it has a single `*`, and the pattern that
is read has this text.

Main result: `parse_eq_ok_iff`.
-/
import PackageRouting.Pattern
import PackageRouting.Proofs.Path.Segments

namespace PackageRouting

namespace Pattern

variable {s : String} {p : Pattern}

theorem toList_text (p : Pattern) : p.text.toList = p.front.toList ++ '*' :: p.back.toList := by
  simp [text, substitute]

/-- **A text is read as a pattern iff it has a single wildcard**, and as the pattern with this
text. -/
theorem parse_eq_ok_iff : parse s = .ok p ↔ s.toList.count '*' = 1 ∧ p.text = s := by
  constructor
  · intro h
    unfold parse at h
    split at h
    · next front back hsplit =>
      obtain rfl : (⟨String.ofList front, String.ofList back⟩ : Pattern) = p := Except.ok.inj h
      have hfront : '*' ∉ front := Path.not_mem_of_mem_splitOn (hsplit ▸ List.mem_cons_self)
      have hback : '*' ∉ back :=
        Path.not_mem_of_mem_splitOn (hsplit ▸ List.mem_cons_of_mem _ List.mem_cons_self)
      have htext : s.toList = front ++ '*' :: back := by
        have hjoin : ['*'].intercalate (s.toList.splitOn '*') = s.toList :=
          List.intercalate_splitOn '*'
        rw [hsplit] at hjoin
        simpa [List.intercalate] using hjoin.symm
      constructor
      · rw [htext, List.count_append, List.count_cons_self, List.count_eq_zero_of_not_mem hfront,
          List.count_eq_zero_of_not_mem hback]
      · rw [← String.toList_inj, toList_text, htext, String.toList_ofList, String.toList_ofList]
    · cases h
  · rintro ⟨hcount, rfl⟩
    rw [toList_text, List.count_append, List.count_cons_self] at hcount
    -- the wildcard between the parts is the only one
    have hfront : '*' ∉ p.front.toList := List.count_eq_zero.1 (by omega)
    have hback : '*' ∉ p.back.toList := List.count_eq_zero.1 (by omega)
    rw [parse, toList_text, List.splitOn_append_cons_self, List.splitOn_eq_singleton hfront,
      List.splitOn_eq_singleton hback]
    simp

/-- With a single wildcard in it, the text tells where the pattern is split. -/
theorem eq_of_text_eq {q : Pattern} (h : p.text = q.text) (hcount : q.text.toList.count '*' = 1) :
    p = q :=
  Except.ok.inj <| (parse_eq_ok_iff.2 ⟨hcount, h⟩).symm.trans (parse_eq_ok_iff.2 ⟨hcount, rfl⟩)

/-- A text with a single wildcard is a pattern. -/
theorem exists_parse (h : s.toList.count '*' = 1) : ∃ p, parse s = .ok p := by
  have hmem : '*' ∈ s.toList := List.count_pos_iff.1 (by omega)
  obtain ⟨front, back, htext⟩ := List.append_of_mem hmem
  refine ⟨⟨String.ofList front, String.ofList back⟩, parse_eq_ok_iff.2 ⟨h, ?_⟩⟩
  rw [← String.toList_inj, toList_text, htext, String.toList_ofList, String.toList_ofList]

/-- A text with a wildcard has a glob character. -/
theorem isGlob_of_count (h : s.toList.count '*' = 1) : isGlob s := by
  have hmem : '*' ∈ s.toList := List.count_pos_iff.1 (by omega)
  exact List.any_eq_true.2 ⟨'*', hmem, by decide⟩

end Pattern

end PackageRouting
