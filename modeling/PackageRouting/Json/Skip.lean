/-
PackageRouting/Json/Skip.lean

Passing over a JSON value that nobody asks for.

The syntax is that of a value that is read, with less care: containers may be
nested without limit, halves of surrogate pairs stand alone, and numbers are as
great as they like.
-/
import PackageRouting.Json.Parser

namespace PackageRouting.Json

open Reader

/-- Passes over the rest of a string; the turns are counted off by the text. -/
def skipChars : List Char → Reader Unit
  | [] => failHere .endInString
  | _ :: turns => do
    match ← peek with
    | none => failHere .endInString
    | some '"' => advance
    | some '\\' =>
      advance
      match ← peek with
      | none => failHere .endInString
      | some 'u' =>
        advance
        let _ ← readHex
        skipChars turns
      | some c =>
        if (escaped? c).isNone then failNext .badEscape
        advance
        skipChars turns
    | some c =>
      if c < ' ' then failHere .controlCharacter
      advance
      skipChars turns

/-- Passes over a string, whose opening quote comes next. -/
def skipString : Reader Unit := do
  advance
  skipChars (← get).rest

/-- Passes over a number. -/
def skipNumber : Reader Unit := do
  let _ ← Numeral.read .badNumber

/-- Passes over a value that is no container, or fails. -/
def skipScalar : Reader Unit := do
  match ← peek with
  | none => failHere .endInValue
  | some 'n' => readWord ['u', 'l', 'l']
  | some 't' => readWord ['r', 'u', 'e']
  | some 'f' => readWord ['a', 'l', 's', 'e']
  | some '"' => skipString
  | some c => if c = '-' || c.isDigit then skipNumber else failNext .valueExpected

/-- Passes over a key and its colon. -/
def skipKey : Reader Unit := do
  match ← peekToken with
  | none => failHere .endInObject
  | some '"' => skipString
  | some _ => failNext .keyNotString
  readColon

/-- A container that is open while values are passed over. -/
inductive Bracket where
  | square
  | curly
  deriving DecidableEq, Repr

namespace Bracket

def closing : Bracket → Char
  | square => ']'
  | curly => '\x7d'

/-- The fault of a text that ends inside. -/
def atEnd : Bracket → Fault
  | square => .endInList
  | curly => .endInObject

/-- The fault of a member that follows without a comma. -/
def noComma : Bracket → Fault
  | square => .listCommaExpected
  | curly => .objectCommaExpected

end Bracket

/-- Passes over what closes the open containers, innermost first, up to the next value, which
there is unless all of them are closed.  `fresh` says that the innermost one was just opened. -/
def skipClosing : Bool → List Bracket → Reader (List Bracket)
  | _, [] => return []
  | fresh, b :: outer => do
    match ← peekToken with
    | none => failHere b.atEnd
    | some c =>
      if c = b.closing then
        advance
        skipClosing false outer
      else if fresh then return b :: outer
      else if c = ',' then
        advance
        return b :: outer
      else failNext b.noComma

/-- Passes over values until no container is open.  Every turn takes at least one character, and
the turns are counted off by the text. -/
def skipValues : List Char → List Bracket → Reader Unit
  | [], _ => failHere .endInValue
  | _ :: turns, enclosing => do
    let (fresh, inside) ← show Reader (Bool × List Bracket) from do
      match ← peekToken with
      | some '[' =>
        advance
        return (true, .square :: enclosing)
      | some '\x7b' =>
        advance
        return (true, .curly :: enclosing)
      | _ =>
        skipScalar
        return (false, enclosing)
    match ← skipClosing fresh inside with
    | [] => return ()
    | .square :: outer => skipValues turns (.square :: outer)
    | .curly :: outer =>
      skipKey
      skipValues turns (.curly :: outer)

/-- Passes over a value. -/
def skipValue : Reader Unit := do skipValues (← get).rest []

end PackageRouting.Json
