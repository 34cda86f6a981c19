/-!
# Why a file cannot be read or written

Each cause is one constructor; the wording, with the error number of the system call where there is
one, is in `message`.
-/

namespace UtilityCss

/-- Why a file cannot be read or written. -/
inductive FileError where
  | notFound
  /-- The path goes through something that is no directory. -/
  | notDirectory
  /-- A directory stands where a file is wanted. -/
  | isDirectory
  /-- A name, or the whole path, is longer than a file system takes. -/
  | nameTooLong
  /-- The path has a NUL character. -/
  | nulInPath
  | notText
  deriving DecidableEq, Repr

def FileError.message : FileError → String
  | .notFound => "No such file or directory (os error 2)"
  | .notDirectory => "Not a directory (os error 20)"
  | .isDirectory => "Is a directory (os error 21)"
  | .nameTooLong => "File name too long (os error 36)"
  | .nulInPath => "file name contained an unexpected NUL byte"
  | .notText => "stream did not contain valid UTF-8"

end UtilityCss
