import NetHooks.Shell.Octets

/-!
# Shell syntax errors

Why a text is no script: a token stands where it cannot, or the text ends inside quotes.
-/
namespace NetHooks.Shell

/-- What a script is made of above its characters. The text of a word stands beside it. -/
inductive Token where
  | fileEnd
  | lineEnd
  | semicolon
  | ampersand
  | both
  | either
  | pipe
  | openParen
  | closeParen
  /-- The end of an arm of a choice. -/
  | armEnd
  | redirection
  | word
  | keyword (spelling : String)
  deriving DecidableEq, Repr

/-- Keywords that a list of commands goes up to. -/
def closingKeywords : List String :=
  ["then", "else", "elif", "fi", "do", "done", "esac", "\x7d"]

/-- Words that are no names of commands. -/
def keywords : List String :=
  ["!", "case", "for", "if", "in", "until", "while", "\x7b"] ++ closingKeywords

def isKeyword (w : Octets) : Bool :=
  keywords.contains (String.ofList w)

namespace Token

/-- The token as messages name it. -/
def title : Token → String
  | fileEnd => "end of file"
  | lineEnd => "newline"
  | semicolon => "\";\""
  | ampersand => "\"&\""
  | both => "\"&&\""
  | either => "\"||\""
  | pipe => "\"|\""
  | openParen => "\"(\""
  | closeParen => "\")\""
  | armEnd => "\";;\""
  | redirection => "redirection"
  | word => "word"
  | keyword spelling => "\"" ++ spelling ++ "\""

/-- A list of commands goes up to this token. -/
def endsList : Token → Bool
  | fileEnd | closeParen | armEnd => true
  | keyword spelling => closingKeywords.contains spelling
  | _ => false

end Token

structure SyntaxError where
  /-- The line that the reader had come to. -/
  line : Nat
  reason : String
  deriving Repr

namespace SyntaxError

/-- What is wrong where one token stands, in the place of another if only that one can
stand there. -/
def unexpected (found : Token) (wanted? : Option Token) : String :=
  found.title ++ " unexpected" ++
    ((wanted?.map fun t => " (expecting " ++ t.title ++ ")").getD "")

def message (e : SyntaxError) : Octets :=
  ("Syntax error: " ++ e.reason).toList

end SyntaxError

end NetHooks.Shell
