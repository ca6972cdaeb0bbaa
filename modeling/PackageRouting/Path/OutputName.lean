/-
PackageRouting/Path/OutputName.lean

The name of the file that a source is bundled into: its stem with the extension
`.js`, numbered `<stem>2.js`, `<stem>3.js`, … where the name is taken.

The search for a free number cannot fail: among one more candidates than there
are taken names, one is free, so it stops after that many.
-/
import PackageRouting.Path.Basic

namespace PackageRouting

/-- The extension of every bundled output. -/
def bundleExtension : String := ".js"

namespace Path

/-- The part of an output name that a number is appended to. -/
def outputStem (p : Path) : String := p.fileStem?.getD ""

/-- The output name of a source: its stem and `.js`. -/
def outputName (p : Path) : String := p.outputStem ++ bundleExtension

/-- The candidate with a number behind the stem. -/
def numberedName (stem : String) (n : Nat) : String := stem ++ toString n ++ bundleExtension

/-- The first free candidate from `n` on, giving up at the one `turns` further. -/
def firstFree (taken : List String) (stem : String) : Nat → Nat → String
  | 0, n => numberedName stem n
  | turns + 1, n =>
    if numberedName stem n ∈ taken then firstFree taken stem turns (n + 1)
    else numberedName stem n

/-- The output name of a source, numbered from 2 on when it is taken. -/
def uniqueOutputName (p : Path) (taken : List String) : String :=
  if p.outputName ∈ taken then firstFree taken p.outputStem taken.length 2
  else p.outputName

end Path

end PackageRouting
