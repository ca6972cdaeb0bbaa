/-
PackageRouting/Main.lean

The program on the disk of the machine.

Everything that is decided is decided by the script of the command line; here
its calls are made, one after another, and errors of the system are named.
-/
import PackageRouting.CommandLine.Command

namespace PackageRouting

/-- The system's number of an error; some calls give it with a minus sign. -/
def errorNumber (n : UInt32) : Nat := if n < 0x80000000 then n.toNat else (0 - n).toNat

/-- The error that an action ended with. -/
def systemError : IO.Error → DiskError
  | .alreadyExists _ n text | .otherError n text | .resourceBusy n text
  | .resourceVanished n text | .unsupportedOperation n text | .hardwareFault n text
  | .unsatisfiedConstraints n text | .illegalOperation n text | .protocolError n text
  | .timeExpired n text | .interrupted _ n text | .noFileOrDirectory _ n text
  | .invalidArgument _ n text | .permissionDenied _ n text | .resourceExhausted _ n text
  | .inappropriateType _ n text | .noSuchThing _ n text => .ofNumber (errorNumber n) text
  | .unexpectedEof => .other 0 "unexpected end of file"
  | .userError text => .other 0 text

/-- The answer of an action that may fail. -/
def attempt {α : Type} (action : IO α) : IO (Except DiskError α) := do
  try
    return .ok (← action)
  catch e =>
    return .error (systemError e)

/-- The listing of a directory, whose place is given. -/
partial def listDirectory (path : String) (keep : List String → Bool) (above : List String) :
    IO Listing := do
  let found ← ((← IO.currentDir) / path).readDir
  let entries ← found.toList.filterMapM fun entry => do
    let place := above ++ [entry.fileName]
    match (← entry.path.symlinkMetadata).type with
    | .dir =>
      if keep place then
        return some (entry.fileName, ← listDirectory (path ++ "/" ++ entry.fileName) keep place)
      else return none
    | .file => return some (entry.fileName, .file)
    | _ => return some (entry.fileName, .link)
  return .directory entries

/-- The listing of what a path leads to. -/
def listPath (path : String) (keep : List String → Bool) : IO Listing := do
  let place := (← IO.currentDir) / path
  match (← place.symlinkMetadata).type, (← place.metadata).type with
  | _, .dir => listDirectory path keep []
  | .file, _ => return .file
  | _, _ => return .link

/-- Makes a call on the disk of the machine. -/
def Call.perform : (c : Call) → IO c.Answer
  | .status p => attempt do
    let found ← ((← IO.currentDir) / p.text).metadata
    let time := found.modified
    return {
      isFile := found.type == .file
      isDirectory := found.type == .dir
      size := found.byteSize.toNat
      modified := time.sec * 1000000000 + time.nsec.toNat }
  | .read p => attempt do return (← IO.FS.readBinFile p.text).toList
  | .list p keep => attempt (listPath p.text keep)
  | .makeDirectory p => attempt (IO.FS.createDir p.text)
  | .create p => attempt (IO.FS.writeBinFile p.text .empty)
  | .write p bytes => attempt (IO.FS.writeBinFile p.text ⟨bytes.toArray⟩)
  | .sync p => attempt do (← IO.FS.Handle.mk p.text .append).flush
  | .rename source target => attempt (IO.FS.rename source.text target.text)
  | .remove p => attempt (IO.FS.removeFile p.text)
  | .clock => IO.monoMsNow

/-- Makes the calls of a script. -/
def Script.perform {α : Type} : Script α → IO α
  | .done a => return a
  | .call c next => do (next (← c.perform)).perform

end PackageRouting

open PackageRouting in
/-- Runs the program. -/
def main (arguments : List String) : IO UInt32 := do
  let surroundings : CommandLine.Surroundings := {
    workingDirectory := ⟨(← IO.currentDir).toString⟩
    process := ← IO.monoNanosNow
    config := ← IO.getEnv "LOCALPKG_CONFIG" }
  let outcome ← (CommandLine.program surroundings arguments).perform
  IO.print outcome.output
  IO.eprint outcome.notes
  return outcome.exit.toUInt32
