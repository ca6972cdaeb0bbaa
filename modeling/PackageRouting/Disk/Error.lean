/-
PackageRouting/Disk/Error.lean

The ways in which a call on the disk fails, and what messages say about them.
-/

namespace PackageRouting

/-- Why a call on the disk failed. -/
inductive DiskError where
  | notFound
  /-- The call would replace something that is in use, such as the current directory. -/
  | busy
  | alreadyExists
  | notDirectory
  | isDirectory
  | nameTooLong
  | notEmpty
  /-- More links to follow than are allowed. -/
  | tooManyLinks
  /-- A path with a zero character in it. -/
  | zeroInName
  /-- A text file whose bytes are not UTF-8. -/
  | notUtf8
  /-- Any other error of the system, by its number. -/
  | other (number : Nat) (description : String)
  deriving DecidableEq, Repr

namespace DiskError

/-- The number that the system gives to an error, if it is one of the system's own. -/
def number? : DiskError → Option Nat
  | notFound => some 2
  | busy => some 16
  | alreadyExists => some 17
  | notDirectory => some 20
  | isDirectory => some 21
  | nameTooLong => some 36
  | notEmpty => some 39
  | tooManyLinks => some 40
  | zeroInName => none
  | notUtf8 => none
  | other number _ => some number

/-- The error that the system gives a number to. -/
def ofNumber (number : Nat) (description : String) : DiskError :=
  ([notFound, busy, alreadyExists, notDirectory, isDirectory, nameTooLong, notEmpty,
    tooManyLinks].find? (·.number? == some number)).getD (other number description)

def description : DiskError → String
  | notFound => "No such file or directory"
  | busy => "Device or resource busy"
  | alreadyExists => "File exists"
  | notDirectory => "Not a directory"
  | isDirectory => "Is a directory"
  | nameTooLong => "File name too long"
  | notEmpty => "Directory not empty"
  | tooManyLinks => "Too many levels of symbolic links"
  | zeroInName => "file name contained an unexpected NUL byte"
  | notUtf8 => "stream did not contain valid UTF-8"
  | other _ text => text

def message (e : DiskError) : String :=
  match e.number? with
  | some n => e.description ++ " (os error " ++ toString n ++ ")"
  | none => e.description

end DiskError

end PackageRouting
