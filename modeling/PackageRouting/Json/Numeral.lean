/-
PackageRouting/Json/Numeral.lean

Numbers as they are written, and the values they stand for.

Reading takes a numeral apart into its digits.  The value keeps as many leading
digits as a 64-bit significand holds and counts what is left out in the
exponent; an integer that fits 64 bits stays an integer, and everything else,
`-0` included, is a binary64 value, scaled by table powers of ten with one
rounding each.
-/
import PackageRouting.Json.Cursor

namespace PackageRouting.Json

/-- The power of ten behind an `e`. -/
structure ExponentPart where
  negative : Bool
  digits : List Char
  deriving DecidableEq, Repr

/-- A number as it is written. -/
structure Numeral where
  negative : Bool
  whole : List Char
  /-- The digits behind the point; none when there is no point. -/
  fraction : List Char
  exponent : Option ExponentPart
  deriving DecidableEq, Repr

namespace Numeral

/-! ### Significand -/

/-- Takes digits into a significand as long as 64 bits hold it; returns it and the digits that
are left. -/
def absorb (significand : Nat) : List Char → Nat × List Char
  | [] => (significand, [])
  | d :: ds =>
    let next := significand * 10 + (d.toNat - '0'.toNat)
    if next ≤ 0xFFFFFFFFFFFFFFFF then absorb next ds else (significand, d :: ds)

/-- The significand and the power of ten that goes with it, before the exponent part. -/
def significand (n : Numeral) : Nat × Int :=
  let (whole, dropped) := absorb 0 n.whole
  let (all, unused) := absorb whole n.fraction
  (all, (dropped.length : Int) - (n.fraction.length - unused.length : Nat))

/-! ### Exponent -/

/-- The greatest exponent that is held. -/
def exponentLimit : Nat := 0x7FFFFFFF

/-- The number that digits spell, or how many of them were read when it got too great. -/
def spelled (read value : Nat) : List Char → Except Nat Nat
  | [] => .ok value
  | d :: ds =>
    let next := value * 10 + (d.toNat - '0'.toNat)
    if next ≤ exponentLimit then spelled (read + 1) next ds else .error (read + 1)

/-! ### Value -/

/-- Ten to the power `k`, for `k` at most 308. -/
def powerOfTen (k : Nat) : Float := Float.ofScientific 1 false k

/-- A binary64 value times a power of ten; none when it is too great.  Powers below the table
are divided out in steps, of which four lead every significand to zero. -/
def scale : Nat → Float → Int → Option Float
  | 0, x, _ => some x
  | turns + 1, x, e =>
    if 0 ≤ e then
      if e ≤ 308 then
        let y := x * powerOfTen e.toNat
        if y.isInf then none else some y
      else if x == 0 then some x
      else none
    else if -308 ≤ e then some (x / powerOfTen (-e).toNat)
    else if x == 0 then some x
    else scale turns (x / powerOfTen 308) (e + 308)

/-- A binary64 number with a sign. -/
def signed (negative : Bool) (x : Float) : Number :=
  .double (if negative then -x else x).toBits

/-- The integer that a numeral without point and exponent stands for, if it fits 64 bits. -/
def integer? (n : Numeral) : Option Int :=
  if n.fraction.isEmpty && n.exponent.isNone then
    match absorb 0 n.whole with
    | (m, []) =>
      if !n.negative then some m
      else if m ≠ 0 ∧ m ≤ 0x8000000000000000 then some (-(m : Int))
      else none
    | _ => none
  else none

/-- The value of a numeral; a failure tells how many exponent digits, if not all, it takes to see
that the value is too great. -/
def value (n : Numeral) : Except (Option Nat) Number :=
  match n.integer? with
  | some i => .ok (.integer i)
  | none =>
    let (m, e) := n.significand
    let scaled (e : Int) : Except (Option Nat) Number :=
      match scale 8 m.toUInt64.toFloat e with
      | some x => .ok (signed n.negative x)
      | none => .error none
    match n.exponent with
    | none => scaled e
    | some part =>
      match spelled 0 0 part.digits with
      | .ok k => scaled (if part.negative then e - k else e + k)
      | .error count =>
        if m ≠ 0 ∧ !part.negative then .error (some count) else .ok (signed n.negative 0)

/-! ### Reading -/

open Reader

/-- Reports a missing digit: at the end of the text `atEnd`, and otherwise a bad number. -/
def noDigit {α : Type} (atEnd : Fault) : Reader α := do
  match ← peek with
  | none => failHere atEnd
  | some _ => failNext .badNumber

/-- Reads the digits in front of the point.  A zero stands alone. -/
def readWhole (atEnd : Fault) : Reader (List Char) := do
  if (← peek) = some '0' then
    advance
    if (← peek).any Char.isDigit then failNext .badNumber
    return ['0']
  match ← digits with
  | [] => noDigit atEnd
  | ds => return ds

/-- Reads a point and its digits, if there is one. -/
def readFraction (atEnd : Fault) : Reader (List Char) := do
  if (← peek) = some '.' then
    advance
    match ← digits with
    | [] => noDigit atEnd
    | ds => return ds
  else return []

/-- Reads the sign of an exponent; true for a minus. -/
def readSign : Reader Bool := do
  match ← peek with
  | some '+' => advance; return false
  | some '-' => advance; return true
  | _ => return false

/-- Reads an exponent part, if there is one; with it comes the place of its first digit. -/
def readExponent (atEnd : Fault) : Reader (Option ExponentPart × Cursor) := do
  match ← peek with
  | some 'e' | some 'E' =>
    advance
    let negative ← readSign
    let place ← get
    match ← digits with
    | [] => noDigit atEnd
    | ds => return (some ⟨negative, ds⟩, place)
  | _ => return (none, ← get)

/-- Reads a numeral behind its sign; with it comes the place of the exponent's first digit. -/
def readUnsigned (negative : Bool) (atEnd : Fault) : Reader (Numeral × Cursor) := do
  let whole ← readWhole atEnd
  let fraction ← readFraction atEnd
  let (exponent, place) ← readExponent atEnd
  return (⟨negative, whole, fraction, exponent⟩, place)

/-- Reads a numeral; the next character is a minus or a digit. -/
def read (atEnd : Fault) : Reader (Numeral × Cursor) := do
  if (← peek) = some '-' then
    advance
    readUnsigned true atEnd
  else readUnsigned false atEnd

end Numeral

/-- Reads a number and its value. -/
def readNumber : Reader Number := do
  let (numeral, place) ← Numeral.read .endInValue
  match numeral.value with
  | .ok n => return n
  | .error none => Reader.failHere .numberTooLarge
  | .error (some count) => Reader.failAt (place.skipBytes count) .numberTooLarge

end PackageRouting.Json
