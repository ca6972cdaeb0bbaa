/-
PackageRouting/Wrapping.lean

Wrapping a chunk as a classic script: its code becomes the body of a function
that is called at once, in strict mode.

With a source map the closer goes right before the comment that names the map,
so that the comment stays last.  Otherwise it takes the place of a semicolon at
the end, and stays on the last line.
-/
import PackageRouting.Text.Cut

namespace PackageRouting.Wrapping

/-- What comes before the code. -/
def prologue : String := "\"use strict\";(function()\x7b"

/-- What comes after the code. -/
def closer : String := "\x7d)()"

/-- The start of the comment that names a source map, with the line end before it. -/
def mapComment : String := "\n//# sourceMappingURL"

/-- What separates the code from the wrapping. -/
def gap (minify : Bool) : String := if minify then "" else "\n"

/-- The code before the source map comment, and the comment with what follows. -/
def cutAtComment (code : String) : Option (String × String) :=
  (Text.cutBefore mapComment.toList code.toList).map fun (a, b) => (String.ofList a, String.ofList b)

/-- The text without one copy of `q` at its end. -/
def dropOnce (q s : String) : String := (Text.dropBack? q s).getD s

/-- Wraps code that has no source map comment. -/
def wrapPlain (code ws : String) : String :=
  let (body, tail) :=
    match Text.dropBack? "\n" code with
    | some rest => (rest, "\n")
    | none => (code, "")
  prologue ++ ws ++ dropOnce ";" body ++ ws ++ closer ++ tail

/-- Wraps code; without the comment a chunk with a source map is wrapped like one without. -/
def wrap (code : String) (hasSourceMap minify : Bool) : String :=
  let ws := gap minify
  match if hasSourceMap then cutAtComment code else none with
  | some (body, comment) => prologue ++ ws ++ body ++ ws ++ closer ++ comment
  | none => wrapPlain code ws

end PackageRouting.Wrapping
