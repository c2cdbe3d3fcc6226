import NetHooks.Shell.Octets

/-!
# Shell commands

What a script asks for. A word is a list of parts, of which some hold commands, so words
and commands are defined together.
-/
namespace NetHooks.Shell

/-- What is done with the value of a parameter. -/
inductive Use where
  | plain
  | length
  | useDefault
  | assignDefault
  | require
  | useAlternative
  | cutHead (longest : Bool)
  | cutTail (longest : Bool)
  /-- Braces that ask for nothing sensible. -/
  | bad
  deriving DecidableEq, Repr

/-- How a redirection opens its file. -/
inductive OpenMode where
  | read
  | write
  /-- Write even where files are kept from being emptied. -/
  | clobber
  | append
  | readWrite
  deriving DecidableEq, Repr

mutual

inductive Part where
  /-- An escaped character stands for itself in a pattern. -/
  | char (c : Char) (escaped : Bool)
  | quoted (parts : List Part)
  /-- A parameter, whether an empty value counts as none, and the word of its use. -/
  | parameter (name : Octets) (use : Use) (refusesEmpty : Bool) (word : List Part)
  /-- The output of a command. -/
  | output (command : Command)
  | arithmetic (parts : List Part)

inductive Target where
  | file (mode : OpenMode) (path : List Part)
  /-- The same as another descriptor, or closed. -/
  | copy (source : List Part)
  /-- A text that stands in the script. -/
  | document (text : List Part) (expanded : Bool)

inductive Redirection where
  | mk (descriptor : Nat) (target : Target)

inductive Command where
  /-- An empty list of commands. -/
  | nothing
  | simple (line : Nat) (assignments : List (Octets × List Part)) (words : List (List Part))
      (redirections : List Redirection)
  | pipeline (background : Bool) (commands : List Command)
  /-- Not waited for. -/
  | background (line : Nat) (body : Command) (redirections : List Redirection)
  | subshell (line : Nat) (body : Command) (redirections : List Redirection)
  | redirected (line : Nat) (body : Command) (redirections : List Redirection)
  | negation (command : Command)
  | sequence (first second : Command)
  /-- The second only after a success of the first. -/
  | both (first second : Command)
  /-- The second only after a failure of the first. -/
  | either (first second : Command)
  | branch (condition yes : Command) (no? : Option Command)
  /-- Repeat the body as long as the condition succeeds, or fails. -/
  | loop (succeeds : Bool) (condition body : Command)
  | each (line : Nat) (name : Octets) (words : List (List Part)) (body : Command)
  | choice (line : Nat) (subject : List Part) (arms : List (List (List Part) × Command))
  | define (line : Nat) (name : Octets) (body : Command)

end

abbrev Word := List Part

instance : Inhabited Part := ⟨.char ' ' false⟩
instance : Inhabited Command := ⟨.nothing⟩
instance : Inhabited Redirection := ⟨.mk 0 (.copy [])⟩

/-! ### Names -/

/-- What a name begins with. -/
def isNameStart (c : Char) : Bool :=
  c.isAlpha || c == '_'

def isNameChar (c : Char) : Bool :=
  c.isAlphanum || c == '_'

def isName : Octets → Bool
  | [] => false
  | c :: rest => isNameStart c && rest.all isNameChar

/-- Parameters with a character of their own for a name. -/
def isSpecialName (c : Char) : Bool :=
  "#?$!-*@".toList.contains c || c.isDigit

def isBlank (c : Char) : Bool :=
  c == ' ' || c == '\t'

/-- The octet that opens a command substitution of the older form. -/
def backquote : Char := '\x60'
def openBrace : Char := '\x7b'
def closeBrace : Char := '\x7d'

/-- Assignments before these commands stay, and an error in one ends the shell. -/
def specialCommands : List String :=
  [":", ".", "break", "continue", "eval", "exec", "exit", "export", "local", "readonly", "return",
    "set", "shift", "times", "trap", "unset"]

def isSpecialCommand (name : Octets) : Bool :=
  specialCommands.contains (String.ofList name)

/-! ### Words -/

/-- Unless it is escaped, quotes keep this character from its meaning in patterns and
paths. -/
def needsEscape (c : Char) : Bool :=
  "\\!*?[]=~:/-".toList.contains c

namespace Word

/-- The text of a word of plain characters alone. -/
def plain? : Word → Option Octets
  | [] => some []
  | .char c false :: rest => (plain? rest).map (c :: ·)
  | _ => none

/-- All characters of a word that holds nothing else but quotes, as those around a mark. -/
def characters (w : Word) : Octets :=
  w.flatMap fun
    | .char c _ => [c]
    | .quoted parts => parts.filterMap fun
        | .char c _ => some c
        | _ => none
    | _ => []

/-- The word without the plain name and the equals sign in front of it. -/
def assignment? (w : Word) : Option (Octets × Word) :=
  let isPart := fun
    | Part.char c false => isNameChar c
    | _ => false
  match plain? (w.takeWhile isPart), w.dropWhile isPart with
  | some name, .char '=' false :: value => if isName name then some (name, value) else none
  | _, _ => none

end Word

namespace Command

/-- The command as one that is not waited for. -/
def inBackground : Command → Command
  | .pipeline _ commands => .pipeline true commands
  | .redirected line body redirections => .background line body redirections
  | c => .background 0 c []

/-- The command behind redirections. -/
def behind (line : Nat) (redirections : List Redirection) : Command → Command
  | .subshell line body _ => .subshell line body redirections
  | c => if redirections.isEmpty then c else .redirected line c redirections

end Command

end NetHooks.Shell
