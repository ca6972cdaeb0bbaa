/-
PackageRouting/Json/Parser.lean

Reading JSON values.

A value is read by recursion on the number of containers that may still be
opened; the items of a list and the members of an object are read in a loop,
every turn of which takes at least one character.  The text that is left when a
loop starts is as long as the loop may be, and counts its turns off.  A key that comes again keeps
its place and gets the later value.
-/
import PackageRouting.Json.Numeral
import PackageRouting.Json.Text

namespace PackageRouting.Json

open Reader

/-! ### Lists -/

/-- Reads items that each stand behind a comma, up to the closing bracket.  The turns are counted
off by the text. -/
def readMoreItems {α : Type} (item : Reader α) : List Char → Reader (List α)
  | [] => failHere .endInList
  | _ :: turns => do
    match ← peekToken with
    | none => failHere .endInList
    | some ']' =>
      advance
      return []
    | some ',' =>
      advance
      match ← peekToken with
      | none => failHere .endInValue
      | some ']' => failNext .commaBeforeEnd
      | some _ =>
        let a ← item
        return a :: (← readMoreItems item turns)
    | some _ => failNext .listCommaExpected

/-- Reads a list, whose opening bracket comes next. -/
def readItems {α : Type} (item : Reader α) : Reader (List α) := do
  advance
  match ← peekToken with
  | none => failHere .endInList
  | some ']' =>
    advance
    return []
  | some _ =>
    let a ← item
    return a :: (← readMoreItems item (← get).rest)

/-! ### Objects -/

/-- Passes over the colon behind a key. -/
def readColon : Reader Unit := do
  match ← peekToken with
  | none => failHere .endInObject
  | some ':' => advance
  | some _ => failNext .colonExpected

/-- Shows whether a key comes next in an object, of which a member was read before unless `first`
holds, and passes over the comma in front of it or over the closing brace. -/
def nextKey (first : Bool) : Reader Bool := do
  match ← peekToken with
  | none => failHere .endInObject
  | some '\x7d' =>
    advance
    return false
  | some c =>
    if first then
      if c = '"' then return true else failNext .keyNotString
    else if c = ',' then
      advance
      match ← peekToken with
      | none => failHere .endInValue
      | some '"' => return true
      | some '\x7d' => failNext .commaBeforeEnd
      | some _ => failNext .keyNotString
    else failNext .objectCommaExpected

/-- Reads the members of an object, with those so far given.  The turns are counted off by the
text. -/
def readMembers (value : Reader Json) :
    List Char → List (String × Json) → Reader (List (String × Json))
  | [], _ => failHere .endInObject
  | _ :: turns, members => do
    if ← nextKey members.isEmpty then
      let key ← readString
      readColon
      let v ← value
      readMembers value turns (putMember key v members)
    else return members

/-! ### Values -/

/-- The number of containers that may be open inside each other. -/
def deepest : Nat := 127

/-- Reads a word, whose first letter comes next. -/
def readWord (letters : List Char) : Reader Unit := do
  advance
  word letters

/-- Reads a value that is no container, or fails. -/
def readScalar : Reader Json := do
  match ← peek with
  | none => failHere .endInValue
  | some 'n' =>
    readWord ['u', 'l', 'l']
    return .null
  | some 't' =>
    readWord ['r', 'u', 'e']
    return .bool true
  | some 'f' =>
    readWord ['a', 'l', 's', 'e']
    return .bool false
  | some '"' => return .string (← readString)
  | some c => if c = '-' || c.isDigit then return .number (← readNumber) else failNext .valueExpected

/-- Reads a value in which as many containers as `depth` may be open inside each other. -/
def readValue : Nat → Reader Json
  | 0 => do
    match ← peekToken with
    | some '[' | some '\x7b' => failNext .tooDeep
    | _ => readScalar
  | depth + 1 => do
    match ← peekToken with
    | some '[' => return .array (← readItems (readValue depth))
    | some '\x7b' =>
      advance
      return .object (← readMembers (readValue depth) (← get).rest [])
    | _ => readScalar

/-- Reads a JSON text. -/
def parse (text : String) : Except ReadError Json := readText (readValue deepest) text

end PackageRouting.Json
