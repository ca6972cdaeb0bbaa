/-
PackageRouting/Json/Text.lean

Strings as they are written.

A character below the space may not stand in a string.  A character is spelled
by number in four hexadecimal digits; one outside the first plane takes two
such escapes, the halves of a surrogate pair, and half a pair is a fault.
-/
import PackageRouting.Json.Cursor

namespace PackageRouting.Json

open Reader

/-- The value of a hexadecimal digit. -/
def hexDigit? (c : Char) : Option Nat :=
  if c.isDigit then some (c.toNat - '0'.toNat)
  else if 'a' ≤ c ∧ c ≤ 'f' then some (c.toNat - 'a'.toNat + 10)
  else if 'A' ≤ c ∧ c ≤ 'F' then some (c.toNat - 'A'.toNat + 10)
  else none

/-- The number that hexadecimal digits spell. -/
def hexNumber? (ds : List Char) : Option Nat :=
  ds.foldlM (fun n d => (hexDigit? d).map (16 * n + ·)) 0

/-- Reads the four digits of an escape. -/
def readHex : Reader Nat := do
  let here ← get
  if here.bytesLeft 4 < 4 then failAt (here.skipBytes 4) .endInString
  match hexNumber? (here.rest.take 4) with
  | some n =>
    set (here.skipBytes 4)
    return n
  | none => failAt (here.skipBytes 4) .badEscape

/-- Reads a character that must follow the first half of a pair. -/
def readPairMark (mark : Char) : Reader Unit := do
  match ← peek with
  | none => failHere .endInString
  | some c => if c = mark then advance else failNext .halfEscape

/-- Reads what follows `\u`, and a second such escape where it takes two. -/
def readUnicode : Reader Char := do
  let n ← readHex
  if 0xDC00 ≤ n ∧ n < 0xE000 then failHere .loneSurrogate
  else if 0xD800 ≤ n ∧ n < 0xDC00 then
    readPairMark '\\'
    readPairMark 'u'
    let m ← readHex
    if 0xDC00 ≤ m ∧ m < 0xE000 then
      return Char.ofNat (0x10000 + (n - 0xD800) * 0x400 + (m - 0xDC00))
    else failHere .loneSurrogate
  else return Char.ofNat n

/-- The character that a letter stands for behind a backslash. -/
def escaped? : Char → Option Char
  | '"' => some '"'
  | '\\' => some '\\'
  | '/' => some '/'
  | 'b' => some '\x08'
  | 'f' => some '\x0c'
  | 'n' => some '\n'
  | 'r' => some '\r'
  | 't' => some '\t'
  | _ => none

/-- Reads what follows a backslash. -/
def readEscape : Reader Char := do
  match ← peek with
  | none => failHere .endInString
  | some 'u' =>
    advance
    readUnicode
  | some c =>
    match escaped? c with
    | some e =>
      advance
      return e
    | none => failNext .badEscape

/-- Reads the rest of a string, whose characters so far are held last first.  Every turn takes at
least one character, so there are turns enough when they are counted off by the text itself. -/
def readChars : List Char → List Char → Reader String
  | [], _ => failHere .endInString
  | _ :: turns, read => do
    match ← peek with
    | none => failHere .endInString
    | some '"' =>
      advance
      return String.ofList read.reverse
    | some '\\' =>
      advance
      let c ← readEscape
      readChars turns (c :: read)
    | some c =>
      if c < ' ' then failNext .controlCharacter
      advance
      readChars turns (c :: read)

/-- Reads a string, whose opening quote comes next. -/
def readString : Reader String := do
  advance
  readChars (← get).rest []

end PackageRouting.Json
