/-!
# What can go wrong with files

`FileError.message` is the system's wording.
-/

namespace SchemaHealth

/-- Why a file was not read or written. -/
inductive FileError where
  | noSuchFile
  | notFolder
  | isFolder
  /-- The path, or a name in it, has too many bytes. -/
  | nameTooLong
  /-- The file does not hold a text. -/
  | notText
  /-- Any other reason, in the words of the system. -/
  | refused (reason : String)
deriving DecidableEq, Repr

/-- The reason in words. -/
def FileError.message : FileError → String
  | noSuchFile => "No such file or directory (os error 2)"
  | notFolder => "Not a directory (os error 20)"
  | isFolder => "Is a directory (os error 21)"
  | nameTooLong => "File name too long (os error 36)"
  | notText => "stream did not contain valid UTF-8"
  | refused reason => reason

end SchemaHealth
