/-
PackageRouting/Decimal/Shortest.lean

The shortest decimal of a binary64 value: the fewest digits that read back as
the value, and of those the nearest to it.

A finite value is `m · 2^q`.  The reals that round to it form an interval around
it, which holds its ends when `m` is even.  For one digit, two digits, and so on
up to seventeen, the two neighbours of the value on that decimal grid are
tested, in exact arithmetic on a common denominator; the first grid with a hit
wins, of two hits the nearer, and of two equally near the even one.
-/

namespace PackageRouting.Decimal

/-- A positive number as digits and a power of ten. -/
structure Scaled where
  digits : Nat
  exponent : Int
  deriving DecidableEq, Repr

/-- A positive value with the interval that rounds to it, over one denominator. -/
structure Neighbourhood where
  low : Nat
  value : Nat
  high : Nat
  denominator : Nat
  closed : Bool

namespace Neighbourhood

/-- Whether `digits · 10^exponent` lies in the interval.  The powers are given as a numerator and
a denominator. -/
def holds (n : Neighbourhood) (digits up down : Nat) : Bool :=
  let x := digits * up * n.denominator
  if n.closed then n.low * down ≤ x && x ≤ n.high * down
  else n.low * down < x && x < n.high * down

/-- The neighbours on the grid of step `10^exponent`, of which the nearer one in the interval is
taken. -/
def onGrid? (n : Neighbourhood) (exponent : Int) : Option Scaled :=
  let up := Nat.pow 10 exponent.toNat
  let down := Nat.pow 10 (-exponent).toNat
  let below := (n.value * down) / (up * n.denominator)
  let above := below + 1
  match n.holds below up down && below != 0, n.holds above up down with
  | false, false => none
  | true, false => some ⟨below, exponent⟩
  | false, true => some ⟨above, exponent⟩
  | true, true =>
    let toBelow := n.value * down - below * up * n.denominator
    let toAbove := above * up * n.denominator - n.value * down
    if toBelow < toAbove || (toBelow = toAbove && below % 2 = 0) then some ⟨below, exponent⟩
    else some ⟨above, exponent⟩

/-- The power of ten of the first digit: the greatest `e` with `10^e ≤ value`, found from an
estimate that is not too great. -/
def leadingExponent (n : Neighbourhood) : Nat → Int → Int
  | 0, e => e
  | turns + 1, e =>
    if n.value * Nat.pow 10 (-(e + 1)).toNat < Nat.pow 10 (e + 1).toNat * n.denominator then e
    else leadingExponent n turns (e + 1)

/-- The first grid with a hit, from coarse to fine. -/
def search (n : Neighbourhood) (leading : Int) : Nat → Int → Scaled
  | 0, e => ⟨(n.value * Nat.pow 10 (-e).toNat) / (Nat.pow 10 e.toNat * n.denominator), e⟩
  | turns + 1, e =>
    match n.onGrid? e with
    | some s => s
    | none => search n leading turns (e - 1)

end Neighbourhood

/-- The digits without the zeros at their end. -/
def trimZeros : Nat → Scaled → Scaled
  | 0, s => s
  | turns + 1, s =>
    if s.digits % 10 = 0 && s.digits != 0 then trimZeros turns ⟨s.digits / 10, s.exponent + 1⟩
    else s

/-- The neighbourhood of a positive finite binary64 value, from its exponent and fraction bits.
At a power of two the gap below is half the gap above. -/
def neighbourhood (exponentBits fraction : Nat) : Neighbourhood :=
  let subnormal := exponentBits = 0
  let m := if subnormal then fraction else fraction + 0x10000000000000
  let q : Int := (if subnormal then 1 else exponentBits : Int) - 1075
  let lowGap := if fraction = 0 && exponentBits > 1 then 1 else 2
  let up := Nat.pow 2 (q - 2).toNat
  { low := (4 * m - lowGap) * up
    value := 4 * m * up
    high := (4 * m + 2) * up
    denominator := Nat.pow 2 (2 - q).toNat
    closed := m % 2 = 0 }

/-- The shortest decimal of a positive finite value. -/
def shortest (exponentBits fraction : Nat) : Scaled :=
  let n := neighbourhood exponentBits fraction
  let leading := n.leadingExponent 700 (-330)
  trimZeros 20 (n.search leading 17 leading)

end PackageRouting.Decimal
