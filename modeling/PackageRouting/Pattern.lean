/-
PackageRouting/Pattern.lean

Patterns with a single `*`.  A pattern is the text before the wildcard and the
text after it; matching a candidate gives the text that the wildcard stands
for, which is never empty, and substituting puts a text in its place.

Matching is about text, upper and lower case apart, and the wildcard also
crosses slashes.  `captureModule?` lets a script source match a pattern that
names another script extension.

Main result: `capture?_eq_some_iff` (a capture is exactly the text that fills the
wildcard).
-/
import PackageRouting.Path.Module
import PackageRouting.Text.Quoted

namespace PackageRouting

open Std

/-- The characters that make a subpath a pattern. -/
def globCharacters : List Char := ['*', '?', '[', ']', '\x7b', '\x7d']

/-- Whether a text has a glob character. -/
def isGlob (s : String) : Bool := s.toList.any (· ∈ globCharacters)

/-- A text that was to be a pattern has no wildcard or more than one. -/
structure PatternShapeError where
  pattern : String
  wildcards : Nat
  deriving DecidableEq, Repr

namespace PatternShapeError

def code : String := "EXPORTS_PATTERN_SHAPE"

def message (e : PatternShapeError) : String :=
  "pattern " ++ Text.quoted e.pattern ++ " must contain exactly one `*` wildcard (found " ++
    toString e.wildcards ++ ")"

end PatternShapeError

/-- A text around a single wildcard. -/
structure Pattern where
  /-- The text before the wildcard. -/
  front : String
  /-- The text after the wildcard. -/
  back : String
  deriving DecidableEq, Repr, Inhabited

namespace Pattern

instance : Ord Pattern where
  compare := compareLex (compareOn front) (compareOn back)

instance : TransOrd Pattern :=
  inferInstanceAs (TransCmp (compareLex (compareOn front) (compareOn back)))

instance : LawfulEqOrd Pattern where
  eq_of_compare {a b} h := by
    replace h : compareLex (compareOn front) (compareOn back) a b = .eq := h
    rw [compareLex_eq_eq] at h
    obtain ⟨hf, hb⟩ := h
    replace hf : front a = front b := LawfulEqOrd.eq_of_compare hf
    replace hb : back a = back b := LawfulEqOrd.eq_of_compare hb
    cases a; cases b; simp_all

/-- Puts a text in the place of the wildcard. -/
def substitute (p : Pattern) (star : String) : String := p.front ++ star ++ p.back

/-- The text of a pattern. -/
def text (p : Pattern) : String := p.substitute "*"

instance : ToString Pattern := ⟨text⟩

/-- Reads a pattern, which must have a single wildcard. -/
def parse (s : String) : Except PatternShapeError Pattern :=
  match s.toList.splitOn '*' with
  | [front, back] => .ok ⟨String.ofList front, String.ofList back⟩
  | _ => .error ⟨s, s.toList.count '*'⟩

/-- The pattern as seen from a directory. -/
def rooted (p : Pattern) (root : Path) : Except PatternShapeError Pattern :=
  parse (root.joinNormalized p.text).toSlash

/-- The text between `front` and `back` in the candidate, unless it is empty. -/
def captureBetween? (front back candidate : String) : Option String :=
  match Text.dropFront? front candidate with
  | none => none
  | some rest =>
    match Text.dropBack? back rest with
    | none => none
    | some star => if star.isEmpty then none else some star

/-- The text that the wildcard stands for in the candidate. -/
def capture? (p : Pattern) (candidate : String) : Option String :=
  captureBetween? p.front p.back candidate

/-- As `capture?`; where the pattern and the candidate both end in a script extension, the
extensions may differ. -/
def captureModule? (p : Pattern) (candidate : String) : Option String :=
  match p.capture? candidate with
  | some star => some star
  | none =>
    match splitScript? candidate, splitScript? p.back with
    | some (candidateBase, _), some (backBase, _) =>
      captureBetween? p.front backBase candidateBase
    | _, _ => none

theorem captureBetween?_eq_some_iff {front back candidate star : String} :
    captureBetween? front back candidate = some star ↔
      star ≠ "" ∧ candidate = front ++ star ++ back := by
  simp only [captureBetween?]
  constructor
  · intro h
    split at h
    · simp at h
    · next rest hf =>
      split at h
      · simp at h
      · next s hb =>
        split at h
        · simp at h
        · next hs =>
          cases h
          rw [Text.dropFront?_eq_some_iff] at hf
          rw [Text.dropBack?_eq_some_iff] at hb
          exact ⟨by simpa using hs, by rw [hf, hb, String.append_assoc]⟩
  · rintro ⟨hs, rfl⟩
    have hf : Text.dropFront? front (front ++ star ++ back) = some (star ++ back) :=
      Text.dropFront?_eq_some_iff.2 (String.append_assoc ..)
    have hb : Text.dropBack? back (star ++ back) = some star :=
      Text.dropBack?_eq_some_iff.2 rfl
    simp [hf, hb, hs]

/-- **A capture is exactly the text that fills the wildcard.** -/
theorem capture?_eq_some_iff {p : Pattern} {candidate star : String} :
    p.capture? candidate = some star ↔ star ≠ "" ∧ candidate = p.substitute star :=
  captureBetween?_eq_some_iff

end Pattern

end PackageRouting
