/-!
# Failures of file operations

What can go wrong with a file, and how it is told to the user.
-/

namespace ShellCompletion

/-- The cause of a failed file operation. -/
inductive FileError where
  /-- There is no such file. -/
  | notFound
  /-- Something that should be a directory is none. -/
  | notADirectory
  /-- Something that should be a file is a directory. -/
  | isADirectory
  /-- Something is there already. -/
  | alreadyExists
  /-- Links lead on for too long. -/
  | tooManyLinks
  /-- A name or a path is too long. -/
  | nameTooLong
  /-- A path contains a NUL. -/
  | nulInPath
  /-- The bytes of a file are no text. -/
  | notText
  /-- The output has no room for all that is written. -/
  | outOfRoom
  /-- Any other failure, in the words of the system. -/
  | system (words : String)
  deriving DecidableEq, Repr

/-- The message for the user. -/
def FileError.message : FileError → String
  | notFound => "No such file or directory (os error 2)"
  | notADirectory => "Not a directory (os error 20)"
  | isADirectory => "Is a directory (os error 21)"
  | alreadyExists => "File exists (os error 17)"
  | tooManyLinks => "Too many levels of symbolic links (os error 40)"
  | nameTooLong => "File name too long (os error 36)"
  | nulInPath => "file name contained an unexpected NUL byte"
  | notText => "stream did not contain valid UTF-8"
  | outOfRoom => "failed to write whole buffer"
  | system words => words

end ShellCompletion
