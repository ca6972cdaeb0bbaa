/-
PackageRouting/Proofs/Path/NameSearch.lean

The search for a free output name, probe by probe.

The search asks for the plain name first and then for the numbered ones, with a
counter of 32 bits (`Search`).  Every probe before the last one hits a taken
name, and no two probes ask for one name, so there are as many taken names as
numbers that are passed (`card_of_passed`); with few enough names the counter
does not come to its end.

Main result: `uniqueOutputName_isFirstFree`.
-/
import Mathlib.Data.Finset.Card
import PackageRouting.Proofs.Path.OutputName

namespace PackageRouting

namespace Path

variable {p : Path} {stem : String} {taken : List String}

/-! ### Probes -/

/-- Where the search for a free name stands. -/
inductive Search where
  /-- At the name without a number. -/
  | plain
  /-- At a number, which is held in 32 bits. -/
  | numbered (n : UInt32)

namespace Search

variable {s s' : Search} {n : UInt32} {k probes probes' : Nat} {name name' : String}

/-- The name that is asked for. -/
def candidate (p : Path) : Search → String
  | plain => p.outputName
  | numbered n => numberedName p.outputStem n.toNat

/-- Where the search goes when the name is taken; nowhere from the last number of 32 bits. -/
def next? : Search → Option Search
  | plain => some (numbered 2)
  | numbered n => if n.toNat + 1 < UInt32.size then some (numbered (n + 1)) else none

/-- The search comes to a free name by a number of probes, and the counter stays in its range. -/
inductive Finds (p : Path) (taken : List String) : Search → Nat → String → Prop
  | free {s : Search} (h : s.candidate p ∉ taken) : Finds p taken s 1 (s.candidate p)
  | next {s s' : Search} {probes : Nat} {name : String} (h : s.candidate p ∈ taken)
      (hnext : s.next? = some s') (hrest : Finds p taken s' probes name) :
      Finds p taken s (probes + 1) name

/-- The search comes to one name only. -/
theorem Finds.unique (h : Finds p taken s probes name) (h' : Finds p taken s probes' name') :
    probes' = probes ∧ name' = name := by
  induction h generalizing probes' with
  | free hfree =>
    cases h' with
    | free _ => exact ⟨rfl, rfl⟩
    | next htaken _ _ => exact absurd htaken hfree
  | next htaken hnext _ ih =>
    cases h' with
    | free hfree => exact absurd htaken hfree
    | next _ hnext' hrest' =>
      obtain rfl := Option.some.inj (hnext.symm.trans hnext')
      obtain ⟨rfl, rfl⟩ := ih hrest'
      exact ⟨rfl, rfl⟩

/-- A run over taken numbers to a free one that 32 bits hold. -/
theorem finds_numbered (hroom : n.toNat + k < UInt32.size)
    (hbefore : ∀ j < k, numberedName p.outputStem (n.toNat + j) ∈ taken)
    (hfree : numberedName p.outputStem (n.toNat + k) ∉ taken) :
    Finds p taken (numbered n) (k + 1) (numberedName p.outputStem (n.toNat + k)) := by
  induction k generalizing n with
  | zero => exact .free hfree
  | succ k ih =>
    have hroom' : n.toNat + 1 < UInt32.size := by omega
    have hnumber : (n + 1).toNat = n.toNat + 1 := by
      rw [UInt32.toNat_add]
      exact Nat.mod_eq_of_lt (Nat.lt_of_le_of_lt (Nat.add_le_add_left (by decide) _) hroom')
    have hnext : (numbered n).next? = some (numbered (n + 1)) := if_pos hroom'
    have hshift : ∀ j, (n + 1).toNat + j = n.toNat + (j + 1) := by omega
    have hrest : Finds p taken (numbered (n + 1)) (k + 1)
        (numberedName p.outputStem ((n + 1).toNat + k)) := by
      refine ih (by omega) (fun j hj => ?_) ?_
      · rw [hshift]
        exact hbefore (j + 1) (by omega)
      · rwa [hshift]
    rw [hshift] at hrest
    exact .next (hbefore 0 (by omega)) hnext hrest

end Search

/-! ### How many probes -/

theorem outputName_ne_numberedName (p : Path) (n : Nat) :
    p.outputName ≠ numberedName p.outputStem n := by
  intro h
  have hlength := congrArg (fun s : String => s.toList.length) h
  have hdigits : 0 < (toString n).toList.length := by
    rw [Nat.toString_eq_repr, Nat.toList_repr]
    exact List.length_pos_iff.2 Nat.toDigits_ne_nil
  simp only [outputName, numberedName, String.toList_append, List.length_append] at hlength
  omega

/-- The plain name and the numbers that are passed are as many taken names. -/
theorem card_of_passed {k : Nat} (hplain : p.outputName ∈ taken)
    (hbefore : ∀ j < k, numberedName p.outputStem (2 + j) ∈ taken) :
    k + 1 ≤ taken.toFinset.card := by
  let passed := (Finset.range k).image fun j => numberedName p.outputStem (2 + j)
  have hinjective : Function.Injective fun j => numberedName p.outputStem (2 + j) := by
    intro i j hij
    have := numberedName_injective p.outputStem hij
    omega
  have hnot : p.outputName ∉ passed := by
    intro hmem
    obtain ⟨j, -, hj⟩ := Finset.mem_image.1 hmem
    exact outputName_ne_numberedName p (2 + j) hj.symm
  have hsub : insert p.outputName passed ⊆ taken.toFinset := by
    intro name hname
    rw [List.mem_toFinset]
    rcases Finset.mem_insert.1 hname with rfl | hname
    · exact hplain
    · obtain ⟨j, hj, rfl⟩ := Finset.mem_image.1 hname
      exact hbefore j (Finset.mem_range.1 hj)
  calc k + 1 = (insert p.outputName passed).card := by
        rw [Finset.card_insert_of_notMem hnot, Finset.card_image_of_injective _ hinjective,
          Finset.card_range]
    _ ≤ taken.toFinset.card := Finset.card_le_card hsub

/-- Behind a taken plain name, the numbered name that is chosen is the first free one. -/
theorem exists_uniqueOutputName_eq (h : p.outputName ∈ taken) :
    ∃ k, p.uniqueOutputName taken = numberedName p.outputStem (2 + k) ∧
      ∀ j < k, numberedName p.outputStem (2 + j) ∈ taken := by
  obtain ⟨k, -, heq, hbefore, -⟩ := firstFree_spec taken p.outputStem taken.length 2
  exact ⟨k, by rw [uniqueOutputName, if_pos h, heq], hbefore⟩

/-- **The output name is the first free candidate**, and a search with a counter of 32 bits finds
it by at most one probe more than there are taken names. -/
theorem uniqueOutputName_isFirstFree (p : Path) (taken : List String)
    (h : taken.toFinset.card < UInt32.size - 2) :
    (∃ probes ≤ taken.toFinset.card + 1, ∀ k name,
      Search.plain.Finds p taken k name ↔ k = probes ∧ name = p.uniqueOutputName taken) ∧
      p.uniqueOutputName taken ∉ taken ∧ p.outputName = p.outputStem ++ ".js" ∧
      (p.outputName ∉ taken → p.uniqueOutputName taken = p.outputName) ∧
      (p.outputName ∈ taken → ∃ n ≥ 2,
        p.uniqueOutputName taken = p.outputStem ++ toString n ++ ".js" ∧
          ∀ m ≥ 2, m < n → p.outputStem ++ toString m ++ ".js" ∈ taken) := by
  have hfree := uniqueOutputName_notMem p taken
  refine ⟨?_, hfree, rfl, fun hplain => if_neg hplain, ?_⟩
  · obtain ⟨probes, hle, hfinds⟩ : ∃ probes ≤ taken.toFinset.card + 1,
        Search.plain.Finds p taken probes (p.uniqueOutputName taken) := by
      by_cases hplain : p.outputName ∈ taken
      · obtain ⟨k, heq, hbefore⟩ := exists_uniqueOutputName_eq hplain
        have hcard := card_of_passed hplain hbefore
        rw [heq] at hfree ⊢
        have hroom : 2 + k < UInt32.size := by omega
        exact ⟨k + 2, by omega,
          .next hplain rfl (Search.finds_numbered (n := 2) hroom hbefore hfree)⟩
      · refine ⟨1, by omega, ?_⟩
        rw [uniqueOutputName, if_neg hplain]
        exact .free (s := .plain) hplain
    refine ⟨probes, hle, fun k name => ⟨hfinds.unique, ?_⟩⟩
    rintro ⟨rfl, rfl⟩
    exact hfinds
  · intro hplain
    obtain ⟨k, heq, hbefore⟩ := exists_uniqueOutputName_eq hplain
    refine ⟨2 + k, by omega, heq, fun m hm hlt => ?_⟩
    obtain ⟨j, rfl⟩ := Nat.exists_eq_add_of_le hm
    exact hbefore j (by omega)

/-- Names that are listed twice count once: three probes are enough. -/
theorem uniqueOutputName_isFirstFree_clashing :
    let taken := ["index.js", "index2.js", "index2.js"]
    taken.toFinset.card < UInt32.size - 2 ∧
      (⟨"docs/index.ts"⟩ : Path).uniqueOutputName taken = "index3.js" ∧
      ∃ probes ≤ 3, Search.plain.Finds ⟨"docs/index.ts"⟩ taken probes "index3.js" := by
  intro taken
  have hcard : taken.toFinset.card < UInt32.size - 2 := by decide
  have hname : (⟨"docs/index.ts"⟩ : Path).uniqueOutputName taken = "index3.js" := by
    decide +kernel
  obtain ⟨⟨probes, hle, hfinds⟩, -⟩ := uniqueOutputName_isFirstFree ⟨"docs/index.ts"⟩ taken hcard
  exact ⟨hcard, hname, probes, hle, (hfinds probes "index3.js").2 ⟨rfl, hname.symm⟩⟩

end Path

end PackageRouting
