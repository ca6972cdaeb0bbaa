/-
PackageRouting/Json/Record.lean

Reading JSON into records.

A record is written as an object with its fields by name, or as a list with its
fields in order; a field that is not there keeps the value it had at the start.
Unknown keys are passed over, and a field may be given once.  Each kind of field
says what it expects, and a value of another kind is reported with what was
found.
-/
import PackageRouting.Json.Skip
import PackageRouting.Text.Quoted

namespace PackageRouting.Json

open Reader

/-! ### Values of an expected kind -/

/-- Reports a value of another kind than expected; a value that cannot be read at all is reported
as that. -/
def failType {α : Type} (expected : String) : Reader α := do
  match ← peekToken with
  | none => failHere .endInValue
  | some '[' => failHere (.wrongType "sequence" expected)
  | some '\x7b' => failHere (.wrongType "map" expected)
  | some _ =>
    let found : String :=
      match ← readScalar with
      | .null => "null"
      | .bool b => "boolean `" ++ toString b ++ "`"
      | .number (.integer i) => "integer `" ++ toString i ++ "`"
      | .number n => "floating point `" ++ n.text ++ "`"
      | .string s => "string " ++ Text.quoted s
      | .array _ => "sequence"
      | .object _ => "map"
    failHere (.wrongType found expected)

/-- Reads a string; `expected` names what it is for. -/
def asString (expected : String) : Reader String := do
  if (← peekToken) = some '"' then readString else failType expected

/-- Reads a truth value. -/
def asBool : Reader Bool := do
  match ← peekToken with
  | some 't' =>
    readWord ['r', 'u', 'e']
    return true
  | some 'f' =>
    readWord ['a', 'l', 's', 'e']
    return false
  | _ => failType "a boolean"

/-- Reads a list. -/
def asList {α : Type} (item : Reader α) : Reader (List α) := do
  if (← peekToken) = some '[' then readItems item else failType "a sequence"

/-- Reads null or a value. -/
def asOption {α : Type} (value : Reader α) : Reader (Option α) := do
  if (← peekToken) = some 'n' then
    readWord ['u', 'l', 'l']
    return none
  else return some (← value)

/-- Reads the name of a variant. -/
def readVariant {α : Type} (variants : List (String × α)) : Reader α := do
  let name ← readString
  match variants.find? (·.1 == name) with
  | some (_, a) => return a
  | none => failHere (.unknownVariant name (variants.map (·.1)))

/-- Reads null as the content of a variant. -/
def asUnit : Reader Unit := do
  if (← peekToken) = some 'n' then readWord ['u', 'l', 'l'] else failType "unit"

/-- Reads a variant, as its name or as an object with its name as the only key and null as the
value. -/
def asVariant {α : Type} (variants : List (String × α)) : Reader α := do
  match ← peekToken with
  | none => failHere .endInValue
  | some '"' => readVariant variants
  | some '\x7b' =>
    advance
    match ← peekToken with
    | none => failHere .endInObject
    | some '\x7d' => failNext .valueExpected
    | some '"' =>
      let a ← readVariant variants
      readColon
      asUnit
      match ← peekToken with
      | some '\x7d' =>
        advance
        return a
      | some _ => failHere .valueExpected
      | none => failHere .endInObject
    | some _ => failNext .keyNotString
  | some _ => failNext .valueExpected

/-! ### Records -/

/-- A field: its key, and how its value changes the record. -/
structure Field (ρ : Type) where
  key : String
  read : ρ → Reader ρ

/-- A kind of record: what messages call it, and its fields. -/
structure RecordKind (ρ : Type) where
  title : String
  fields : List (Field ρ)

namespace RecordKind

variable {ρ : Type}

/-- Reads the members of an object.  A fault in the keys themselves is reported behind the blanks
that follow, and behind the brace if it closes the object there. -/
def readMembers (kind : RecordKind ρ) : List Char → Bool → List String → ρ → Reader ρ
  | [], _, _, _ => failHere .endInObject
  | _ :: turns, first, seen, r => do
    if ← nextKey first then
      let key ← readString
      match kind.fields.find? (·.key == key) with
      | none =>
        readColon
        skipValue
        readMembers kind turns false seen r
      | some field =>
        if key ∈ seen then
          if (← peekToken) = some '\x7d' then advance
          failHere (.repeatedField key)
        readColon
        readMembers kind turns false (key :: seen) (← field.read r)
    else return r

/-- Reads what may follow the last field of a list: its end. -/
def readEnd : Reader Unit := do
  match ← peekToken with
  | none => failHere .endInList
  | some ']' => advance
  | some ',' =>
    advance
    if (← peekToken) = some ']' then failNext .commaBeforeEnd else failNext .textAfterEnd
  | some _ => failNext .textAfterEnd

/-- Reads fields in order from a list. -/
def readElements : List (Field ρ) → Bool → ρ → Reader ρ
  | [], _, r => do
    readEnd
    return r
  | field :: fields, first, r => do
    match ← peekToken with
    | none => failHere .endInList
    | some ']' =>
      advance
      return r
    | some c =>
      if first then readElements fields false (← field.read r)
      else if c = ',' then
        advance
        match ← peekToken with
        | none => failHere .endInValue
        | some ']' => failNext .commaBeforeEnd
        | some _ => readElements fields false (← field.read r)
      else failNext .listCommaExpected

/-- Reads a record on top of the given one. -/
def read (kind : RecordKind ρ) (start : ρ) : Reader ρ := do
  match ← peekToken with
  | none => failHere .endInValue
  | some '\x7b' =>
    advance
    readMembers kind (← get).rest true [] start
  | some '[' =>
    advance
    readElements kind.fields true start
  | some _ => failType kind.title

end RecordKind

end PackageRouting.Json
