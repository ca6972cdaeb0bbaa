/-
PackageRouting/Json/Cursor.lean

A place in a text that is being read, and what can be wrong there.

Lines are counted from one.  A column is the number of bytes since the start of
the line, so a character outside ASCII counts for more than one.  A fault is
reported either where the reader stands (`failHere`) or one byte further, on
the byte that it refuses (`failNext`); at the end of the text both are the same
place.
-/
import PackageRouting.Json.Value

namespace PackageRouting.Json

/-- What a reader may find wrong. -/
inductive Fault where
  | endInValue
  | endInList
  | endInObject
  | endInString
  | colonExpected
  | listCommaExpected
  | objectCommaExpected
  /-- A word other than `null`, `true` and `false`. -/
  | badWord
  | valueExpected
  | badEscape
  | badNumber
  | numberTooLarge
  | keyNotString
  | controlCharacter
  | loneSurrogate
  /-- Half of a pair of escapes without the other half. -/
  | halfEscape
  | commaBeforeEnd
  | textAfterEnd
  | tooDeep
  | wrongType (found expected : String)
  | unknownVariant (found : String) (expected : List String)
  | repeatedField (key : String)
  deriving DecidableEq, Repr

namespace Fault

/-- The variants that were possible, as a phrase. -/
def alternatives : List String → String
  | [a] => "`" ++ a ++ "`"
  | [a, b] => "`" ++ a ++ "` or `" ++ b ++ "`"
  | all => "one of " ++ ", ".intercalate (all.map fun a => "`" ++ a ++ "`")

def text : Fault → String
  | endInValue => "EOF while parsing a value"
  | endInList => "EOF while parsing a list"
  | endInObject => "EOF while parsing an object"
  | endInString => "EOF while parsing a string"
  | colonExpected => "expected `:`"
  | listCommaExpected => "expected `,` or `]`"
  | objectCommaExpected => "expected `,` or `\x7d`"
  | badWord => "expected ident"
  | valueExpected => "expected value"
  | badEscape => "invalid escape"
  | badNumber => "invalid number"
  | numberTooLarge => "number out of range"
  | keyNotString => "key must be a string"
  | controlCharacter => "control character (\\u0000-\\u001F) found while parsing a string"
  | loneSurrogate => "lone leading surrogate in hex escape"
  | halfEscape => "unexpected end of hex escape"
  | commaBeforeEnd => "trailing comma"
  | textAfterEnd => "trailing characters"
  | tooDeep => "recursion limit exceeded"
  | wrongType found expected => "invalid type: " ++ found ++ ", expected " ++ expected
  | unknownVariant found expected =>
    "unknown variant `" ++ found ++ "`, expected " ++ alternatives expected
  | repeatedField key => "duplicate field `" ++ key ++ "`"

end Fault

/-- A fault and its place. -/
structure ReadError where
  fault : Fault
  line : Nat
  column : Nat
  deriving DecidableEq, Repr

def ReadError.message (e : ReadError) : String :=
  e.fault.text ++ " at line " ++ toString e.line ++ " column " ++ toString e.column

/-- What is left to read, and the place of its first character. -/
structure Cursor where
  rest : List Char
  line : Nat := 1
  column : Nat := 0
  deriving Repr

namespace Cursor

/-- The place behind a character. -/
def pass (c : Char) (rest : List Char) (here : Cursor) : Cursor :=
  if c = '\n' then ⟨rest, here.line + 1, 0⟩ else ⟨rest, here.line, here.column + c.utf8Size⟩

/-- The place some bytes further; a character may be left in its middle. -/
def skipBytes : Nat → Cursor → Cursor
  | 0, here => here
  | n + 1, here =>
    match here with
    | ⟨[], _, _⟩ => here
    | ⟨c :: rest, line, column⟩ =>
      if n + 1 < c.utf8Size then ⟨rest, line, column + (n + 1)⟩
      else skipBytes (n + 1 - c.utf8Size) (pass c rest here)
termination_by n => n
decreasing_by
  have := Char.utf8Size_pos c
  omega

/-- The number of bytes that are left, as far as `limit`. -/
def bytesLeft (limit : Nat) (here : Cursor) : Nat :=
  (here.rest.take limit).foldl (fun n c => n + c.utf8Size) 0

end Cursor

/-- A reader of a text. -/
abbrev Reader := StateT Cursor (Except ReadError)

namespace Reader

/-- Reports a fault at a place. -/
def failAt {α : Type} (place : Cursor) (fault : Fault) : Reader α :=
  throw ⟨fault, place.line, place.column⟩

/-- Reports a fault where the reader stands. -/
def failHere {α : Type} (fault : Fault) : Reader α := do failAt (← get) fault

/-- Reports a fault on the next byte. -/
def failNext {α : Type} (fault : Fault) : Reader α := do failAt ((← get).skipBytes 1) fault

/-- The next character, which stays unread. -/
def peek : Reader (Option Char) := return (← get).rest.head?

/-- Passes over the next character. -/
def advance : Reader Unit := modify fun here =>
  match here.rest with
  | [] => here
  | c :: rest => here.pass c rest

/-- The place behind all leading characters that satisfy a test. -/
def skipFrom (test : Char → Bool) : List Char → Cursor → Cursor
  | [], here => here
  | c :: rest, here => if test c then skipFrom test rest (here.pass c rest) else here

/-- Passes over space, tab and line ends. -/
def skipBlanks : Reader Unit := modify fun here =>
  skipFrom (fun c => c = ' ' || c = '\t' || c = '\n' || c = '\r') here.rest here

/-- Passes over blanks and shows the character behind them. -/
def peekToken : Reader (Option Char) := do
  skipBlanks
  peek

/-- Reads the digits that follow. -/
def digits : Reader (List Char) := do
  let ds := (← get).rest.takeWhile Char.isDigit
  modify fun here => skipFrom Char.isDigit here.rest here
  return ds

/-- Reads the letters of a word, whose first letter was seen. -/
def word : List Char → Reader Unit
  | [] => pure ()
  | letter :: letters => do
    match ← peek with
    | none => failHere .endInValue
    | some c => if c = letter then do advance; word letters else failNext .badWord

/-- Reads a value behind which nothing but blanks may follow. -/
def untilEnd {α : Type} (reader : Reader α) : Reader α := do
  let a ← reader
  match ← peekToken with
  | none => return a
  | some _ => failNext .textAfterEnd

/-- Reads a whole text. -/
def readText {α : Type} (reader : Reader α) (text : String) : Except ReadError α :=
  (untilEnd reader ⟨text.toList, 1, 0⟩).map (·.1)

end Reader

end PackageRouting.Json
