/-
PackageRouting/Glob.lean

Globs over package names, by which a configuration leaves packages out.

`?` stands for any one character, `*` for any run of characters, `[…]` for one
character of a class and `[!…]` for one outside it.  `**` stands for whole
leading directories; it must be a component of its own, and a slash behind it
belongs to it.  Every other character stands for itself, slashes and leading
dots included.

Matching is defined by recursion on the tokens: a token that stands for a run
tries the rest of the glob on every suffix that may remain.  It is computed for
all suffixes of a name at once, token by token from the last one.

Main result: `matchRow_eq_map` (what is computed is what is defined).
-/

namespace PackageRouting

namespace Glob

/-- A member of a character class. -/
inductive ClassItem where
  | single (c : Char)
  /-- The characters from the first to the last; none when they are reversed. -/
  | range (first last : Char)
  deriving DecidableEq, Repr

/-- A piece of a glob. -/
inductive Token where
  | char (c : Char)
  | anyChar
  | anyRun
  /-- `**`: nothing, or everything up to some slash, or everything. -/
  | anyDirectories
  | oneOf (items : List ClassItem)
  | noneOf (items : List ClassItem)
  deriving DecidableEq, Repr

/-! ### Reading -/

/-- Why a text is no glob. -/
inductive Error where
  /-- Three or more `*` in a row. -/
  | wildcards
  /-- A `**` that is not a component of its own. -/
  | recursiveWildcards
  /-- A `[` without the `]` that closes it. -/
  | invalidClass
  deriving DecidableEq, Repr

/-- The members of a class: `x-y` is a range where three characters are left. -/
def classItems : List Char → List ClassItem
  | a :: '-' :: b :: rest => .range a b :: classItems rest
  | a :: rest => .single a :: classItems rest
  | [] => []

/-- The class that starts behind a `[` or `[!`, and the text behind its `]`.  The first character
is a member whatever it is. -/
def takeClass? : List Char → Option (List ClassItem × List Char)
  | [] => none
  | first :: rest =>
    match rest.span (· != ']') with
    | (_, []) => none
    | (more, _ :: after) => some (classItems (first :: more), after)

/-- Reads tokens.  `before` is the character in front, if there is one; every turn takes at
least one character. -/
def readTokens (before : Option Char) : Nat → List Char → Except Error (List Token)
  | 0, _ => .ok []
  | fuel + 1, s =>
    match s with
    | [] => .ok []
    | '*' :: '*' :: '*' :: _ => .error .wildcards
    | ['*', '*'] =>
      if before = none ∨ before = some '/' then .ok [.anyDirectories]
      else .error .recursiveWildcards
    | '*' :: '*' :: c :: rest =>
      if (before = none ∨ before = some '/') ∧ c = '/' then
        return .anyDirectories :: (← readTokens (some '/') fuel rest)
      else .error .recursiveWildcards
    | '*' :: rest => return .anyRun :: (← readTokens (some '*') fuel rest)
    | '?' :: rest => return .anyChar :: (← readTokens (some '?') fuel rest)
    | '[' :: '!' :: rest =>
      match takeClass? rest with
      | some (items, after) => return .noneOf items :: (← readTokens (some ']') fuel after)
      | none => .error .invalidClass
    | '[' :: rest =>
      match takeClass? rest with
      | some (items, after) => return .oneOf items :: (← readTokens (some ']') fuel after)
      | none => .error .invalidClass
    | c :: rest => return .char c :: (← readTokens (some c) fuel rest)

/-! ### Matching -/

def ClassItem.holds (c : Char) : ClassItem → Bool
  | single a => c == a
  | range first last => first ≤ c && c ≤ last

/-- Whether a token that stands for one character stands for this one. -/
def Token.admits : Token → Char → Bool
  | char a, c => c == a
  | anyChar, _ => true
  | oneOf items, c => items.any (·.holds c)
  | noneOf items, c => !items.any (·.holds c)
  | anyRun, _ | anyDirectories, _ => false

/-- All ends of a list, the list itself and the empty one included. -/
def suffixes {α : Type} : List α → List (List α)
  | [] => [[]]
  | a :: rest => (a :: rest) :: suffixes rest

/-- What may remain behind a run of directories that starts inside a text: what follows some
slash, or nothing. -/
def directorySuffixes : List Char → List (List Char)
  | [] => [[]]
  | c :: rest => if c = '/' then rest :: directorySuffixes rest else directorySuffixes rest

/-- Whether a text is made of what the tokens stand for. -/
def matchTokens : List Token → List Char → Bool
  | [], s => s.isEmpty
  | .anyRun :: ts, s => (suffixes s).any (matchTokens ts)
  | .anyDirectories :: ts, s => matchTokens ts s || (directorySuffixes s).any (matchTokens ts)
  | t :: ts, c :: rest => t.admits c && matchTokens ts rest
  | _ :: _, [] => false

/-! ### Matching all ends at once

Trying every end over and over takes time exponential in the number of runs.  A row holds the
answers for all ends of one text, the longest first, and the row of some tokens is made from the
row of all but the first of them. -/

/-- The row of a token for one character, from the row of what follows it. -/
def oneRow (admits : Char → Bool) : List Char → List Bool → List Bool
  | c :: s, _ :: row => (admits c && row.headD false) :: oneRow admits s row
  | _, _ => [false]

/-- The row of a run, from the row of what follows it. -/
def runRow : List Bool → List Bool
  | [] => []
  | found :: row =>
    let later := runRow row
    (found || later.headD false) :: later

/-- For each end, whether what follows a run of directories is found behind a slash in it, or at
the end of the text. -/
def directoryRow : List Char → List Bool → List Bool
  | c :: s, _ :: row =>
    let later := directoryRow s row
    ((c == '/' && row.headD false) || later.headD false) :: later
  | _, row => row

/-- The row of some tokens: for each end of a text, whether it is made of what they stand for. -/
def matchRow (s : List Char) : List Token → List Bool
  | [] => (suffixes s).map List.isEmpty
  | .anyRun :: ts => runRow (matchRow s ts)
  | .anyDirectories :: ts =>
    let row := matchRow s ts
    List.zipWith (· || ·) row (directoryRow s row)
  | t :: ts => oneRow t.admits s (matchRow s ts)

theorem headD_map_suffixes (f : List Char → Bool) (s : List Char) :
    ((suffixes s).map f).headD false = f s := by
  cases s <;> rfl

theorem oneRow_map (admits : Char → Bool) (f : List Char → Bool) (s : List Char) :
    oneRow admits s ((suffixes s).map f) =
      (suffixes s).map fun
        | c :: rest => admits c && f rest
        | [] => false := by
  induction s with
  | nil => rfl
  | cons c rest ih =>
    simp only [suffixes, List.map_cons, oneRow, headD_map_suffixes, ih]

theorem runRow_map (f : List Char → Bool) (s : List Char) :
    runRow ((suffixes s).map f) = (suffixes s).map fun e => (suffixes e).any f := by
  induction s with
  | nil => simp [suffixes, runRow]
  | cons c rest ih =>
    simp only [suffixes, List.map_cons, runRow, ih, headD_map_suffixes, List.any_cons]

theorem directoryRow_map (f : List Char → Bool) (s : List Char) :
    directoryRow s ((suffixes s).map f) =
      (suffixes s).map fun e => (directorySuffixes e).any f := by
  induction s with
  | nil => simp [suffixes, directoryRow, directorySuffixes]
  | cons c rest ih =>
    simp only [suffixes, List.map_cons, directoryRow, ih, headD_map_suffixes, directorySuffixes]
    by_cases hc : c = '/' <;> simp [hc]

/-- **A row holds the answers for all ends of a text.** -/
theorem matchRow_eq_map (s : List Char) (ts : List Token) :
    matchRow s ts = (suffixes s).map (matchTokens ts) := by
  induction ts with
  | nil => exact List.map_congr_left fun _ _ => rfl
  | cons t ts ih =>
    cases t with
    | anyRun =>
      rw [matchRow, ih, runRow_map]
      exact List.map_congr_left fun _ _ => by rw [matchTokens]
    | anyDirectories =>
      simp only [matchRow, ih, directoryRow_map, List.zipWith_map, List.zipWith_self]
      exact List.map_congr_left fun _ _ => by rw [matchTokens]
    | _ =>
      show oneRow (Token.admits _) s (matchRow s ts) = _
      rw [ih, oneRow_map]
      refine List.map_congr_left fun e _ => ?_
      cases e <;> rfl

end Glob

/-- A glob, with the text it was read from. -/
structure Glob where
  text : String
  tokens : List Glob.Token
  deriving DecidableEq, Repr

namespace Glob

/-- Reads a glob. -/
def parse (text : String) : Except Error Glob :=
  return ⟨text, ← readTokens none text.length text.toList⟩

/-- Whether a name matches. -/
def isMatch (g : Glob) (name : String) : Bool := (matchRow name.toList g.tokens).headD false

theorem isMatch_eq_matchTokens (g : Glob) (name : String) :
    g.isMatch name = matchTokens g.tokens name.toList := by
  rw [isMatch, matchRow_eq_map, headD_map_suffixes]

end Glob

end PackageRouting
