/-
PackageRouting/Proofs/History.lean

The states that a list of calls leads through, and what has been so since when.

A machine is a function from a state and a call to the next state.  Whatever every
call keeps holds in all states (`stateAt_of_step`), and what the calls of a stretch
keep holds at its end if it holds at its beginning (`stateAt_between`).

`Since` is about times, which are the places of the calls: something happened
before, and something else has been the case from then on.  It describes
whatever one call begins and another ends (`iff_since`).
-/
import Mathlib.Data.List.Basic

namespace PackageRouting

namespace History

variable {σ α : Type*} {step : σ → α → σ} {start : σ} {calls : List α} {call : α} {i j : Nat}
  {P : σ → Prop}

/-- The state before the `i`-th call. -/
def stateAt (step : σ → α → σ) (start : σ) (calls : List α) (i : Nat) : σ :=
  (calls.take i).foldl step start

theorem stateAt_succ (h : calls[i]? = some call) :
    stateAt step start calls (i + 1) = step (stateAt step start calls i) call := by
  rw [stateAt, List.take_add_one, h, List.foldl_append]
  rfl

theorem stateAt_succ_of_none (h : calls[i]? = none) :
    stateAt step start calls (i + 1) = stateAt step start calls i := by
  rw [stateAt, List.take_add_one, h, Option.toList_none, List.append_nil, stateAt]

/-- What all calls between two times keep holds at the later one. -/
theorem stateAt_between (hij : i ≤ j) (hi : P (stateAt step start calls i))
    (hstep : ∀ k call, i ≤ k → k < j → calls[k]? = some call →
      P (stateAt step start calls k) → P (step (stateAt step start calls k) call)) :
    P (stateAt step start calls j) := by
  induction hij with
  | refl => exact hi
  | @step k hik ih =>
    have hk : P (stateAt step start calls k) :=
      ih fun l call hil hlk => hstep l call hil (Nat.lt_succ_of_lt hlk)
    cases hcall : calls[k]? with
    | none => rwa [stateAt_succ_of_none hcall]
    | some call =>
      rw [stateAt_succ hcall]
      exact hstep k call hik k.lt_succ_self hcall hk

/-- **What every call keeps holds in all states.** -/
theorem stateAt_of_step (hstart : P start)
    (hstep : ∀ s, P s → ∀ call ∈ calls, P (step s call)) (i : Nat) :
    P (stateAt step start calls i) :=
  stateAt_between i.zero_le hstart fun _ call _ _ hcall hk =>
    hstep _ hk call (List.mem_of_getElem? hcall)

/-! ### Times -/

variable {happened kept : Nat → Prop}

/-- At some time before the `i`-th something happened, and at the times in between something else
was the case. -/
def Since (happened kept : Nat → Prop) (i : Nat) : Prop :=
  ∃ s < i, happened s ∧ ∀ k, s < k → k < i → kept k

theorem not_since_zero : ¬ Since happened kept 0 := by
  rintro ⟨s, hs, -⟩
  exact Nat.not_lt_zero s hs

/-- **It happened last time, or it happened before and was kept last time.** -/
theorem since_succ_iff :
    Since happened kept (i + 1) ↔ happened i ∨ kept i ∧ Since happened kept i := by
  constructor
  · rintro ⟨s, hs, hhappened, hkept⟩
    rcases Nat.lt_succ_iff_lt_or_eq.1 hs with hlt | rfl
    · exact .inr ⟨hkept i hlt i.lt_succ_self, s, hlt, hhappened, fun k hsk hki =>
        hkept k hsk (Nat.lt_succ_of_lt hki)⟩
    · exact .inl hhappened
  · rintro (hhappened | ⟨hi, s, hs, hhappened, hkept⟩)
    · exact ⟨i, i.lt_succ_self, hhappened, fun k hik hki => absurd hik (Nat.not_lt.2
        (Nat.le_of_lt_succ hki))⟩
    · refine ⟨s, Nat.lt_succ_of_lt hs, hhappened, fun k hsk hki => ?_⟩
      rcases Nat.lt_succ_iff_lt_or_eq.1 hki with hlt | rfl
      · exact hkept k hsk hlt
      · exact hi

/-- **What begins when something happens, and ends when it is not kept, has been so since then.** -/
theorem iff_since {Q : Nat → Prop} (hzero : ¬ Q 0)
    (hsucc : ∀ i, Q (i + 1) ↔ happened i ∨ kept i ∧ Q i) (i : Nat) :
    Q i ↔ Since happened kept i := by
  induction i with
  | zero => exact iff_of_false hzero not_since_zero
  | succ i ih => rw [hsucc, since_succ_iff, ih]

end History

end PackageRouting
