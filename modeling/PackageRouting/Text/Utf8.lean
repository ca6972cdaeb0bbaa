/-
PackageRouting/Text/Utf8.lean

Reading bytes as UTF-8.

The bytes are taken one after another, with the character under way as the
state.  A byte that cannot go on with it ends it as broken and starts anew, so
that every longest piece that could have become a character counts as one
broken character.  `decode` shows broken characters as none; a text is read
leniently, with U+FFFD in their place, or not at all.
-/

namespace PackageRouting.Text

/-- A character of which some bytes are read. -/
structure Pending where
  bits : Nat
  missing : Nat
  /-- The least and the greatest byte that may come next. -/
  least : UInt8 := 0x80
  greatest : UInt8 := 0xBF

/-- What a byte comes to at the start of a character. -/
inductive Start where
  | whole (c : Char)
  | pending (p : Pending)
  | broken

/-- Takes the first byte of a character. -/
def start (b : UInt8) : Start :=
  if b < 0x80 then .whole (Char.ofNat b.toNat)
  else if b < 0xC2 then .broken
  else if b < 0xE0 then .pending ⟨b.toNat - 0xC0, 1, 0x80, 0xBF⟩
  else if b = 0xE0 then .pending ⟨0, 2, 0xA0, 0xBF⟩
  else if b = 0xED then .pending ⟨0xD, 2, 0x80, 0x9F⟩
  else if b < 0xF0 then .pending ⟨b.toNat - 0xE0, 2, 0x80, 0xBF⟩
  else if b = 0xF0 then .pending ⟨0, 3, 0x90, 0xBF⟩
  else if b < 0xF4 then .pending ⟨b.toNat - 0xF0, 3, 0x80, 0xBF⟩
  else if b = 0xF4 then .pending ⟨4, 3, 0x80, 0x8F⟩
  else .broken

/-- Whether a byte goes on with the character under way. -/
def Pending.accepts (p : Pending) (b : UInt8) : Bool := p.least ≤ b && b ≤ p.greatest

/-- The bits with those of one more byte. -/
def Pending.extend (p : Pending) (b : UInt8) : Nat := p.bits * 64 + (b.toNat - 0x80)

/-- The characters of some bytes behind the character under way, broken ones as none. -/
def decodeFrom : Option Pending → List UInt8 → List (Option Char)
  | none, [] => []
  | some _, [] => [none]
  | some p, b :: rest =>
    if p.accepts b then
      if p.missing ≤ 1 then some (Char.ofNat (p.extend b)) :: decodeFrom none rest
      else decodeFrom (some { bits := p.extend b, missing := p.missing - 1 }) rest
    else
      none :: match start b with
        | .whole c => some c :: decodeFrom none rest
        | .pending q => decodeFrom (some q) rest
        | .broken => none :: decodeFrom none rest
  | none, b :: rest =>
    match start b with
    | .whole c => some c :: decodeFrom none rest
    | .pending q => decodeFrom (some q) rest
    | .broken => none :: decodeFrom none rest

/-- The characters of some bytes, broken ones as none. -/
def decode (bytes : List UInt8) : List (Option Char) := decodeFrom none bytes

/-- The text of some bytes, with U+FFFD for what is broken. -/
def decodeLossy (bytes : List UInt8) : String :=
  String.ofList ((decode bytes).map fun c => c.getD '\uFFFD')

/-- The text of some bytes, unless something is broken. -/
def decode? (bytes : List UInt8) : Option String :=
  ((decode bytes).mapM id).map String.ofList

end PackageRouting.Text
