/-!
# System errors

The ways in which reading, writing or starting something can fail, with the texts in
which the system reports them.
-/
namespace NetHooks

inductive SystemError where
  | notFound
  | notDirectory
  | isDirectory
  | alreadyExists
  | tooManyLinks
  | nameTooLong
  | busy
  | notEmpty
  | notExecutable
  | accessDenied
  | argumentListTooLong
  | invalidText
  | nulInPath
  | nulInData
  /-- A failure with a text of its own. -/
  | other (text : String)
  deriving DecidableEq, Repr

namespace SystemError

/-- What is wrong, and the number that the system has for it. -/
def reason : SystemError → String × Option Nat
  | .notFound => ("No such file or directory", some 2)
  | .notDirectory => ("Not a directory", some 20)
  | .isDirectory => ("Is a directory", some 21)
  | .alreadyExists => ("File exists", some 17)
  | .tooManyLinks => ("Too many levels of symbolic links", some 40)
  | .nameTooLong => ("File name too long", some 36)
  | .busy => ("Device or resource busy", some 16)
  | .notEmpty => ("Directory not empty", some 39)
  | .notExecutable => ("Exec format error", some 8)
  | .accessDenied => ("Permission denied", some 13)
  | .argumentListTooLong => ("Argument list too long", some 7)
  | .invalidText => ("stream did not contain valid UTF-8", none)
  | .nulInPath => ("file name contained an unexpected NUL byte", none)
  | .nulInData => ("nul byte found in provided data", none)
  | .other text => (text, none)

def message (e : SystemError) : String :=
  match e.reason with
  | (text, some n) => text ++ " (os error " ++ toString n ++ ")"
  | (text, none) => text

end SystemError

end NetHooks
