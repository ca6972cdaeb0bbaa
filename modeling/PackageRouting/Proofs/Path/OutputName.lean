/-
PackageRouting/Proofs/Path/OutputName.lean

The names of outputs: what they look like, and why a free one is found.

The candidates behind a stem differ, because numbers are written in one way only
(`numberedName_injective`).  There is one more of them than there are taken
names, so they cannot all be taken.  Stems and numbers have no slash, so an
output name is a single step of a path.

Main results: `uniqueOutputName_notMem` (the name that is chosen is free),
`isOutputName_uniqueOutputName`, and `IsOutputName.components`.
-/
import Mathlib.Data.List.Nodup
import Mathlib.Data.List.Perm.Subperm
import PackageRouting.Path.OutputName
import PackageRouting.Proofs.Path.Normal

namespace PackageRouting

namespace Path

open Component

variable {p : Path} {stem : String} {taken : List String}

/-! ### Numbered candidates -/

theorem numberedName_injective (stem : String) : Function.Injective (numberedName stem) := by
  intro n m h
  have hnumber : toString n = toString m :=
    (String.append_right_inj _).1 ((String.append_left_inj _).1 h)
  have hdigits : Nat.toDigits 10 n = Nat.toDigits 10 m := by
    rw [← Nat.toList_repr, ← Nat.toList_repr, ← Nat.toString_eq_repr, hnumber, Nat.toString_eq_repr]
  rw [← Nat.ofDigitChars_ten_toDigits (n := n), hdigits, Nat.ofDigitChars_ten_toDigits]

/-- The search stops at a candidate, before which all are taken; unless it has given up, the
candidate is free. -/
theorem firstFree_spec (taken : List String) (stem : String) (turns n : Nat) :
    ∃ k ≤ turns, firstFree taken stem turns n = numberedName stem (n + k) ∧
      (∀ j < k, numberedName stem (n + j) ∈ taken) ∧
      (k < turns → numberedName stem (n + k) ∉ taken) := by
  induction turns generalizing n with
  | zero => exact ⟨0, Nat.le_refl 0, rfl, by simp, by simp⟩
  | succ turns ih =>
    by_cases hn : numberedName stem n ∈ taken
    · obtain ⟨k, hk, heq, hbefore, hfree⟩ := ih (n + 1)
      refine ⟨k + 1, by omega, ?_, ?_, ?_⟩
      · rw [firstFree, if_pos hn, heq, Nat.add_assoc, Nat.add_comm 1 k]
      · intro j hj
        cases j with
        | zero => exact hn
        | succ j =>
          rw [Nat.add_comm j 1, ← Nat.add_assoc]
          exact hbefore j (by omega)
      · intro hlt
        rw [Nat.add_comm k 1, ← Nat.add_assoc]
        exact hfree (by omega)
    · exact ⟨0, Nat.zero_le _, by rw [firstFree, if_neg hn]; rfl, by simp, fun _ => hn⟩

/-- More candidates than taken names are not all taken. -/
theorem exists_numberedName_notMem {n k : Nat} (h : taken.length < k) :
    ∃ j < k, numberedName stem (n + j) ∉ taken := by
  by_contra hall
  push Not at hall
  have hnodup : ((List.range k).map fun j => numberedName stem (n + j)).Nodup := by
    refine List.Nodup.map (fun i j hij => ?_) List.nodup_range
    have := numberedName_injective stem hij
    omega
  have hsub : ((List.range k).map fun j => numberedName stem (n + j)) ⊆ taken := by
    intro name hname
    obtain ⟨j, hj, rfl⟩ := List.mem_map.1 hname
    exact hall j (List.mem_range.1 hj)
  have hlength := (List.subperm_of_subset hnodup hsub).length_le
  rw [List.length_map, List.length_range] at hlength
  omega

/-- **As many turns as there are taken names are enough.** -/
theorem firstFree_notMem (taken : List String) (stem : String) (n : Nat) :
    firstFree taken stem taken.length n ∉ taken := by
  obtain ⟨k, hk, heq, hbefore, hfree⟩ := firstFree_spec taken stem taken.length n
  rw [heq]
  rcases Nat.lt_or_eq_of_le hk with hlt | rfl
  · exact hfree hlt
  · -- the search gave up, so all candidates but the last one are taken
    obtain ⟨j, hj, hnot⟩ : ∃ j < taken.length + 1, numberedName stem (n + j) ∉ taken :=
      exists_numberedName_notMem (Nat.lt_succ_self taken.length)
    rcases Nat.lt_succ_iff_lt_or_eq.1 hj with hlt | rfl
    · exact absurd (hbefore j hlt) hnot
    · exact hnot

/-- **The output name that is chosen is free.** -/
theorem uniqueOutputName_notMem (p : Path) (taken : List String) :
    p.uniqueOutputName taken ∉ taken := by
  rw [uniqueOutputName]
  split
  · exact firstFree_notMem taken p.outputStem 2
  · assumption

/-! ### What an output name looks like -/

/-- The texts that end in the extension of outputs and have no slash. -/
def IsOutputName (name : String) : Prop :=
  ∃ base, name = base ++ bundleExtension ∧ '/' ∉ base.toList

theorem slash_notMem_of_cutAtLast {sep : Char} {s a b : List Char}
    (h : Text.cutAtLast sep s = some (a, b)) (hs : '/' ∉ s) : '/' ∉ a := by
  intro ha
  apply hs
  rw [← Text.cutAtLast_append h]
  exact List.mem_append_left _ ha

theorem slash_notMem_toString (n : Nat) : '/' ∉ (toString n).toList := by
  intro hslash
  rw [Nat.toString_eq_repr, Nat.toList_repr] at hslash
  exact absurd (Nat.isDigit_of_mem_toDigits (by omega) (by omega) hslash) (by decide)

/-- A file name is the last component. -/
theorem getLast?_of_fileName? {name : String} (h : p.fileName? = some name) :
    p.components.getLast? = some (.name name) := by
  unfold fileName? at h
  split at h
  · next t hlast =>
    obtain rfl : t = name := Option.some.inj h
    exact hlast
  · cases h

theorem isProperName_of_fileName? {name : String} (h : p.fileName? = some name) :
    IsProperName name :=
  (wellFormed_components p).isInner_of_mem (List.mem_of_getLast? (getLast?_of_fileName? h))
    (by simp) (by simp)

theorem slash_notMem_outputStem (p : Path) : '/' ∉ p.outputStem.toList := by
  rw [outputStem, fileStem?]
  cases hname : p.fileName? with
  | none => decide
  | some name =>
    obtain ⟨-, -, -, hslash⟩ := isProperName_of_fileName? hname
    rw [Option.map_some, Option.getD_some]
    split
    · exact hslash
    · exact hslash
    · next stem _ _ hcut =>
      rw [String.toList_ofList]
      exact slash_notMem_of_cutAtLast hcut hslash

theorem isOutputName_outputName (p : Path) : IsOutputName p.outputName :=
  ⟨p.outputStem, rfl, slash_notMem_outputStem p⟩

theorem isOutputName_numberedName (h : '/' ∉ stem.toList) (n : Nat) :
    IsOutputName (numberedName stem n) := by
  refine ⟨stem ++ toString n, rfl, ?_⟩
  rw [String.toList_append, List.mem_append, not_or]
  exact ⟨h, slash_notMem_toString n⟩

/-- **The output name that is chosen ends in the extension and has no slash.** -/
theorem isOutputName_uniqueOutputName (p : Path) (taken : List String) :
    IsOutputName (p.uniqueOutputName taken) := by
  rw [uniqueOutputName]
  split
  · obtain ⟨k, -, heq, -⟩ := firstFree_spec taken p.outputStem taken.length 2
    rw [heq]
    exact isOutputName_numberedName (slash_notMem_outputStem p) _
  · exact isOutputName_outputName p

theorem IsOutputName.slash_notMem {name : String} (h : IsOutputName name) :
    '/' ∉ name.toList := by
  obtain ⟨base, rfl, hbase⟩ := h
  rw [String.toList_append, List.mem_append, not_or]
  exact ⟨hbase, by decide⟩

theorem IsOutputName.isProperName {name : String} (h : IsOutputName name) :
    IsProperName name := by
  have hslash := h.slash_notMem
  obtain ⟨base, rfl, -⟩ := h
  -- the extension alone is longer than the texts that are no names
  have hlength : 3 ≤ (base ++ bundleExtension).toList.length := by
    rw [String.toList_append, List.length_append, show bundleExtension.toList.length = 3 from rfl]
    omega
  have hne : ∀ s : String, s.toList.length < 3 → base ++ bundleExtension ≠ s := by
    rintro s hs rfl
    omega
  exact ⟨hne "" (by decide), hne "." (by decide), hne ".." (by decide), hslash⟩

/-- A proper name is a single step of a path. -/
theorem components_of_isProperName {name : String} (h : IsProperName name) :
    (⟨name⟩ : Path).components = [.name name] := by
  have hwell : WellFormed [.name name] := .inner h (by simp)
  have htext : render [.name name] = name := by
    show "/".intercalate [name] = name
    rw [String.intercalate_singleton]
  have hcomp := components_render hwell
  rwa [htext] at hcomp

/-- **An output name is a single step of a path.** -/
theorem IsOutputName.components {name : String} (h : IsOutputName name) :
    (⟨name⟩ : Path).components = [.name name] :=
  components_of_isProperName h.isProperName

end Path

end PackageRouting
