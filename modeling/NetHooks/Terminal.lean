/-!
# Terminal styles

Text is set off by control sequences, if the terminal is to show colours. A reset inside
the text is followed by the style again, so that the style lasts to the end of the text.
-/
namespace NetHooks

inductive Style where
  | dim
  | green
  | boldGreen
  | boldRed
  | yellow
  | blue
  | cyan
  deriving DecidableEq, Repr

namespace Style

def opening : Style → String
  | dim => "\x1b[2m"
  | green => "\x1b[32m"
  | boldGreen => "\x1b[1;32m"
  | boldRed => "\x1b[1;31m"
  | yellow => "\x1b[33m"
  | blue => "\x1b[34m"
  | cyan => "\x1b[36m"

def reset : String := "\x1b[0m"

/-- The text with the style again after each reset. -/
def reopened (s : Style) (text : String) : String :=
  text.replace reset (reset ++ s.opening)

end Style

/-- The text with blanks behind it up to the width. -/
def padded (width : Nat) (text : String) : String :=
  text ++ String.ofList (List.replicate (width - text.length) ' ')

/-- What text is shown on. -/
structure Terminal where
  color : Bool := false

namespace Terminal

/-- The text in the style and at least as wide as asked for. -/
def paintPadded (t : Terminal) (s : Style) (width : Nat) (text : String) : String :=
  if t.color then s.opening ++ padded width (s.reopened text) ++ Style.reset
  else padded width text

/-- The text in the style. -/
def paint (t : Terminal) (s : Style) (text : String) : String :=
  t.paintPadded s 0 text

end Terminal

end NetHooks
