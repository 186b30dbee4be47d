import ShellCompletion.CommandLine.Run

/-!
# The program

The file operations as the system answers them, and the program that reads its arguments, runs, and
prints.
-/

namespace ShellCompletion

/-- The number that the system gives to a failure. -/
def systemCode : IO.Error → Option UInt32
  | .alreadyExists _ code _ | .otherError code _ | .resourceBusy code _ | .resourceVanished code _
  | .unsupportedOperation code _ | .hardwareFault code _ | .unsatisfiedConstraints code _
  | .illegalOperation code _ | .protocolError code _ | .timeExpired code _ | .interrupted _ code _
  | .noFileOrDirectory _ code _ | .invalidArgument _ code _ | .permissionDenied _ code _
  | .resourceExhausted _ code _ | .inappropriateType _ code _ | .noSuchThing _ code _ => some code
  | .unexpectedEof | .userError _ => none

/-- The same number without the sign that some operations put in front of it. -/
def unsigned (code : UInt32) : UInt32 :=
  if code < 0x80000000 then code else -code

/-- A failure of the system as a failed file operation. -/
def fileError (error : IO.Error) : FileError :=
  match (systemCode error).map unsigned with
  | some 2 => .notFound
  | some 13 => .system "Permission denied (os error 13)"
  | some 17 => .alreadyExists
  | some 20 => .notADirectory
  | some 21 => .isADirectory
  | some 36 => .nameTooLong
  | some 40 => .tooManyLinks
  | _ => .system error.toString

/-- Runs an operation of the system and catches its failure. -/
def attempt {α : Type} (operation : IO α) : IO (Except FileError α) := do
  match ← operation.toBaseIO with
  | .ok value => return .ok value
  | .error error => return .error (fileError error)

instance : FileAccess IO where
  read path := attempt (IO.FS.readBinFile path)
  write path bytes := attempt (IO.FS.writeBinFile path bytes)
  makeDirectory path := attempt (IO.FS.createDir path)
  isDirectory path := do
    match ← attempt (IO.FS.realPath path) with
    | .ok found => found.isDir
    | .error _ => return false
  list path := attempt do
    (← (← IO.FS.realPath path).readDir).toList.mapM fun entry => do
      return { name := entry.fileName, isDirectory := ← entry.path.isDir }

end ShellCompletion

/-- Runs the program with its arguments. -/
def main (arguments : List String) : IO UInt32 := do
  let executable := (← IO.appPath).fileStem.getD ""
  let outcome ← (ShellCompletion.CommandLine.run executable arguments : IO _)
  IO.print outcome.output
  IO.eprint outcome.notes
  return outcome.exitCode
