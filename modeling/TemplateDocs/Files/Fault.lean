import TemplateDocs.Text.Basic

/-!
# Faults of the file system
-/
namespace TemplateDocs.Files

inductive Fault where
  | notFound
  | exists_
  | notDirectory
  | isDirectory
  | invalidName
  | nameTooLong
  | tooManyLinks
  /-- The bytes of a file are not UTF-8. -/
  | notText
  deriving DecidableEq, Repr

/-- The wording of the operating system, with the number it gives the fault. -/
def Fault.message : Fault → Text
  | .notFound => "No such file or directory (os error 2)".toList
  | .exists_ => "File exists (os error 17)".toList
  | .notDirectory => "Not a directory (os error 20)".toList
  | .isDirectory => "Is a directory (os error 21)".toList
  | .invalidName => "file name contained an unexpected NUL byte".toList
  | .nameTooLong => "File name too long (os error 36)".toList
  | .tooManyLinks => "Too many levels of symbolic links (os error 40)".toList
  | .notText => "stream did not contain valid UTF-8".toList

end TemplateDocs.Files
