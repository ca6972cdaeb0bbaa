/-
PackageRouting/Text/Quoted.lean

Text between double quotes, as messages show a pattern or a string.  Quotes and
backslashes are escaped by a backslash, four controls have a letter, and a
character that would not show is spelled by its number.
-/
import PackageRouting.Text.Hidden

namespace PackageRouting.Text

/-- A character inside quotes. -/
def quotedChar (c : Char) : List Char :=
  match c with
  | '"' => ['\\', '"']
  | '\\' => ['\\', '\\']
  | '\t' => ['\\', 't']
  | '\r' => ['\\', 'r']
  | '\n' => ['\\', 'n']
  | '\x00' => ['\\', '0']
  | c =>
    if isHidden c then ['\\', 'u', '\x7b'] ++ Nat.toDigits 16 c.toNat ++ ['\x7d'] else [c]

/-- The text between double quotes. -/
def quoted (s : String) : String :=
  String.ofList (('"' :: s.toList.flatMap quotedChar) ++ ['"'])

end PackageRouting.Text
