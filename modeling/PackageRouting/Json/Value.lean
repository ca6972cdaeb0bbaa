/-
PackageRouting/Json/Value.lean

JSON values.  The members of an object keep the order of the document.  A key
that is written again keeps its place and gets the later value, which is what
`putMember` does; a read object therefore has each key once.

A number is an integer when it was written as one and fits 64 bits, and
otherwise a binary64 value, held by its bits.
-/
import PackageRouting.Decimal.Shortest

namespace PackageRouting

namespace Json

/-- A JSON number. -/
inductive Number where
  | integer (value : Int)
  | double (bits : UInt64)
  deriving DecidableEq, Repr, Inhabited

/-- The exponent of a number in scientific form, which has a sign either way. -/
def exponentText (e : Int) : String := (if e < 0 then "e" else "e+") ++ toString e

/-- The text of a positive decimal: positional from five zeros behind the point up to sixteen
places before it, always with a point, and otherwise with an exponent. -/
def decimalText (s : Decimal.Scaled) : String :=
  let digits := (toString s.digits).toList
  let size : Int := digits.length
  let place := size + s.exponent
  if 0 ≤ s.exponent ∧ place ≤ 16 then
    String.ofList (digits ++ List.replicate s.exponent.toNat '0') ++ ".0"
  else if 0 < place ∧ place ≤ 16 then
    String.ofList (digits.take place.toNat ++ '.' :: digits.drop place.toNat)
  else if -5 < place ∧ place ≤ 0 then
    "0." ++ String.ofList (List.replicate (-place).toNat '0' ++ digits)
  else
    match digits with
    | [] => ""
    | [d] => String.singleton d ++ exponentText (place - 1)
    | d :: rest => String.ofList (d :: '.' :: rest) ++ exponentText (place - 1)

/-- The text of a number. -/
def Number.text : Number → String
  | .integer value => toString value
  | .double bits =>
    let sign := if bits >>> 63 = 0 then "" else "-"
    let exponentBits := ((bits >>> 52) &&& 0x7FF).toNat
    let fraction := (bits &&& 0xFFFFFFFFFFFFF).toNat
    if exponentBits = 0x7FF then "null"
    else if exponentBits = 0 ∧ fraction = 0 then sign ++ "0.0"
    else sign ++ decimalText (Decimal.shortest exponentBits fraction)

end Json

/-- A JSON value. -/
inductive Json where
  | null
  | bool (value : Bool)
  | number (value : Json.Number)
  | string (value : String)
  | array (items : List Json)
  | object (members : List (String × Json))
  deriving Repr, Inhabited

namespace Json

/-- A number that counts something. -/
def natural (n : Nat) : Json := .number (.integer n)

/-- The text, or null. -/
def stringOrNull : Option String → Json
  | some s => .string s
  | none => .null

/-- The list of some texts. -/
def strings (l : List String) : Json := .array (l.map .string)

/-- The value at a key. -/
def memberIn? (key : String) : List (String × Json) → Option Json
  | [] => none
  | (k, v) :: rest => if k = key then some v else memberIn? key rest

/-- The value at a key of an object. -/
def member? (key : String) : Json → Option Json
  | object members => memberIn? key members
  | _ => none

/-- Adds a member; a key that is there already keeps its place and gets the new value. -/
def putMember (key : String) (value : Json) : List (String × Json) → List (String × Json)
  | [] => [(key, value)]
  | (k, v) :: rest => if k = key then (k, value) :: rest else (k, v) :: putMember key value rest

/-- The text of a string value. -/
def string? : Json → Option String
  | string s => some s
  | _ => none

/-- The value of a truth value. -/
def bool? : Json → Option Bool
  | bool b => some b
  | _ => none

def isNull : Json → Bool
  | null => true
  | _ => false

end Json

end PackageRouting
