import NetHooks.Shell.Command
import NetHooks.Shell.SyntaxError

/-!
# Reading scripts

A script is read from the front, with the text of an alias put before what is left. A
backslash at the end of a line joins the next line to it.

The text of a here-document stands after the line of its command, so it is not yet known
when its redirection is read. The documents of a command are collected on a first
reading, and the command is read once more with them.
-/
namespace NetHooks.Shell

/-- A here-document that is still to be read. -/
structure Awaited where
  /-- Its number among the documents of the command. -/
  index : Nat
  /-- The line at which the document ends. -/
  mark : Octets
  /-- Tabs in front of its lines do not count. -/
  withoutTabs : Bool
  expanded : Bool

/-- An alias whose text is being read. It is not replaced in its own text. -/
structure ActiveAlias where
  name : Octets
  /-- The length of what is left when its text is read. -/
  beyond : Nat
  /-- Its text ends in a blank, so that the word after it may be an alias too. -/
  goesOn : Bool

structure Input where
  rest : Octets
  line : Nat := 1
  aliases : List (Octets × Octets) := []
  active : List ActiveAlias := []
  /-- The last token, and whether it is to be read again. -/
  token : Token := .lineEnd
  again : Bool := false
  /-- The last word. -/
  word : Word := []
  /-- The last redirection, without its word. -/
  redirection : Redirection := default
  withoutTabs : Bool := false
  awaited : List Awaited := []
  /-- The mark of the document that is being read, and whether it has been reached. -/
  mark? : Option (Octets × Bool) := none
  reached : Bool := false
  /-- The documents as the reading before found them. -/
  known : List Word := []
  /-- The documents that this reading found. -/
  found : List (Nat × Word) := []
  count : Nat := 0
  /-- How many documents are around the text, and the most that ever were. -/
  depth : Nat := 0
  deepest : Nat := 0

/-- Takes characters from an input, and gives up at an error. -/
abbrev Reader := StateT Input (Except SyntaxError)

namespace Reader

def failing (reason : String) : Reader α := do
  throw ⟨(← get).line, reason⟩

def unexpected (wanted? : Option Token) : Reader α := do
  failing (SyntaxError.unexpected (← get).token wanted?)

/-! ### Characters -/

/-- The text after the line ends that a backslash hides, and their number. -/
def joined : Octets → Nat → Octets × Nat
  | '\\' :: '\n' :: rest, n => joined rest (n + 1)
  | s, n => (s, n)

/-- The next character, of lines that are joined. At the end of a document there is none. -/
def peek : Reader (Option Char) := do
  let i ← get
  if i.reached then return none
  match i.rest with
  | '\\' :: _ =>
      let (rest, line) := joined i.rest i.line
      set { i with rest, line }
      return rest.head?
  | c :: _ => return some c
  | [] => return none

/-- The next character just as it stands. -/
def peekRaw : Reader (Option Char) := do
  let i ← get
  return if i.reached then none else i.rest.head?

/-- Pass over a character. -/
def skip : Reader Unit :=
  modify fun i =>
    match i.rest with
    | '\n' :: rest => { i with rest, line := i.line + 1 }
    | _ :: rest => { i with rest }
    | [] => i

/-- Pass over the character if it comes next. -/
def passes (c : Char) : Reader Bool := do
  if (← peek) = some c then
    skip
    return true
  else return false

/-- Whether the text begins with the line of the mark, and what follows it. -/
def afterMark? (mark : Octets) (s : Octets) : Option Octets :=
  if mark.isPrefixOf s then
    match s.drop mark.length with
    | [] => some []
    | '\n' :: rest => some rest
    | _ => none
  else none

/-- At the beginning of a line of a document, end the document if its mark stands there. -/
def checkMark : Reader Unit := do
  if let some (mark, withoutTabs) := (← get).mark? then
    let _ ← peek
    modify fun i =>
      if i.reached then i
      else
        let rest := if withoutTabs then i.rest.dropWhile (· == '\t') else i.rest
        match afterMark? mark rest with
        | some beyond => { i with rest := beyond, line := i.line + 1, reached := true }
        | none => { i with rest }

/-- Pass over a line end in quotes or braces. Another line of a document may begin behind
it. -/
def skipInside (c : Char) : Reader Unit := do
  skip
  if c = '\n' then checkMark

/-- Take a name. -/
def name : Nat → Octets → Reader Octets
  | 0, taken => return taken.reverse
  | fuel + 1, taken => do
      match ← peek with
      | some c =>
          if isNameChar c then
            skip
            name fuel (c :: taken)
          else return taken.reverse
      | none => return taken.reverse

/-- Take digits. -/
def digits : Nat → Octets → Reader Octets
  | 0, taken => return taken.reverse
  | fuel + 1, taken => do
      match ← peek with
      | some c =>
          if c.isDigit then
            skip
            digits fuel (c :: taken)
          else return taken.reverse
      | none => return taken.reverse

/-- The text between backquotes, after the first. A backslash before a dollar sign, a
backquote or another backslash is taken away, and inside double quotes one before a
double quote. -/
def untilBackquote (inDouble : Bool) : Nat → Octets → Reader Octets
  | 0, taken => return taken.reverse
  | fuel + 1, taken => do
      match ← peek with
      | none => failing "EOF in backquote substitution"
      | some c =>
          skip
          if c = backquote then return taken.reverse
          else if c = '\\' then
            match ← peekRaw with
            | none => failing "EOF in backquote substitution"
            | some d =>
                skip
                if d = '\\' || d = backquote || d = '$' || (inDouble && d = '"') then
                  untilBackquote inDouble fuel (d :: taken)
                else untilBackquote inDouble fuel (d :: '\\' :: taken)
          else untilBackquote inDouble fuel (c :: taken)

/-! ### Between tokens -/

/-- The text after blanks, joined lines and a comment, and the line that it begins in. -/
def skipSpace (inComment : Bool) : Octets → Nat → Octets × Nat
  | [], n => ([], n)
  | '\\' :: '\n' :: rest, n =>
      if inComment then ('\n' :: rest, n) else skipSpace false rest (n + 1)
  | c :: rest, n =>
      if inComment then if c = '\n' then (c :: rest, n) else skipSpace true rest n
      else if isBlank c then skipSpace false rest n
      else if c = '#' then skipSpace true rest n
      else (c :: rest, n)

/-- Read the last token again. -/
def pushBack : Reader Unit :=
  modify ({ · with again := true })

def gives (t : Token) : Reader Token := do
  modify ({ · with token := t })
  return t

/-- Pass over a character and give the token, or the longer one if that character follows
once more. -/
def operator (c : Char) (single double : Token) : Reader Token := do
  skip
  if ← passes c then gives double else gives single

/-- What a redirection asks for, without its word. -/
def takeRedirection (descriptor? : Option Nat) : Reader Unit := do
  let found (usual : Nat) (target : Target) (withoutTabs : Bool) : Reader Unit :=
    modify fun i =>
      { i with redirection := .mk (descriptor?.getD usual) target, withoutTabs }
  if ← passes '>' then
    if ← passes '>' then found 1 (.file .append []) false
    else if ← passes '|' then found 1 (.file .clobber []) false
    else if ← passes '&' then found 1 (.copy []) false
    else found 1 (.file .write []) false
  else
    skip
    if ← passes '<' then found 0 (.document [] true) (← passes '-')
    else if ← passes '&' then found 0 (.copy []) false
    else if ← passes '>' then found 0 (.file .readWrite []) false
    else found 0 (.file .read []) false

/-- The alias that a word stands for. One that is being read is none. -/
def alias? (w : Word) : Reader (Option (Octets × Octets)) := do
  let i ← get
  match Word.plain? w with
  | none => return none
  | some name =>
      match i.aliases.lookup name with
      | none => return none
      | some value =>
          let left := i.rest.length
          if i.active.any fun a => a.name = name && decide (a.beyond ≤ left) then return none
          else return some (name, value)

/-- Put the text of an alias before what is left. -/
def pushAlias (name value : Octets) : Reader Unit :=
  modify fun i =>
    if value.isEmpty then i
    else
      let a : ActiveAlias := ⟨name, i.rest.length, (value.getLast?.map isBlank).getD false⟩
      { i with rest := value ++ i.rest, active := a :: i.active }

/-- Leave the aliases whose text has been read; whether one of them lets the next word be
an alias. -/
def leaveAliases : Reader Bool := do
  let i ← get
  if i.active.isEmpty then return false
  else
    let left := i.rest.length
    let (finished, active) := i.active.partition fun a => decide (left < a.beyond)
    set { i with active }
    return finished.any (·.goesOn)

end Reader

end NetHooks.Shell
