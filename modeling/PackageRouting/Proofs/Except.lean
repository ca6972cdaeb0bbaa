/-
PackageRouting/Proofs/Except.lean

Computations that may fail.

A computation in steps returns a value where its first step does and the rest
does (`bind_eq_ok_iff`), which takes it apart without looking at its failures.
-/

namespace PackageRouting

theorem bind_eq_ok_iff {ε α β : Type} {x : Except ε α} {f : α → Except ε β} {b : β} :
    (x >>= f) = .ok b ↔ ∃ a, x = .ok a ∧ f a = .ok b := by
  cases x with
  | error e => exact ⟨nofun, nofun⟩
  | ok a =>
    constructor
    · exact fun h => ⟨a, rfl, h⟩
    · rintro ⟨a', ha, h⟩
      obtain rfl := Except.ok.inj ha
      exact h

end PackageRouting
