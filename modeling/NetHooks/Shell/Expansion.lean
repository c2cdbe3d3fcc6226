import NetHooks.Shell.Arithmetic
import NetHooks.Shell.Glob
import NetHooks.Shell.Process
import NetHooks.Shell.Splitting

/-!
# Shell expansion

From a word to the fields that it gives: the values of parameters, the output of commands
and arithmetic are put in, what they gave is split at separators, patterns are replaced by
the paths that fit, and quotes are removed.
-/
namespace NetHooks.Shell

/-- Runs a command and gives what it printed. -/
abbrev Substituter := Command → Run Octets

namespace Expansion

/-- How a word is expanded. -/
structure Manner where
  /-- The word gives fields. -/
  toFields : Bool := false
  quoted : Bool := false
  /-- The word stands in braces, so that even what is written in it is split. -/
  inBraces : Bool := false
  /-- A tilde may stand in front. -/
  tilde : Bool := false
  /-- A tilde may stand behind any colon. -/
  tildeBehindColon : Bool := false

/-- Users whose home directories are known. -/
def homes : List (String × String) :=
  [("root", "/root"), ("daemon", "/usr/sbin"), ("bin", "/bin"), ("sys", "/dev"),
    ("sync", "/bin"), ("games", "/usr/games"), ("man", "/var/cache/man"),
    ("lp", "/var/spool/lpd"), ("mail", "/var/mail"), ("news", "/var/spool/news"),
    ("uucp", "/var/spool/uucp"), ("proxy", "/bin"), ("www-data", "/var/www"),
    ("backup", "/var/backups"), ("list", "/var/list"), ("irc", "/run/ircd"),
    ("nobody", "/nonexistent")]

/-- The name of a user behind a tilde: what stands up to a slash, up to a colon where one
ends it, or up to the end. -/
def userName? (endsAtColon : Bool) : Word → Option Octets
  | [] => some []
  | .char c false :: rest =>
      if c = '/' || (endsAtColon && c = ':') then some []
      else (userName? endsAtColon rest).map (c :: ·)
  | _ => none

/-- The home directory of a user, of the running one if the name is empty. -/
def home? (p : Process) (user : Octets) : Option Octets :=
  if user.isEmpty then p.value? "HOME".toList
  else (homes.lookup (String.ofList user)).map String.toList

/-! ### Parameters -/

/-- The parameters in one text. Fields of their own have NULs between them, and so have
those that are yet to be split. -/
def allParameters (p : Process) (m : Manner) (separately : Bool) : Octets :=
  let first := match p.value? "IFS".toList with
    | some separators => separators.take 1
    | none => [' ']
  let between :=
    if m.toFields && m.quoted && separately then ['\x00']
    else if m.toFields && !m.quoted && (p.value? "IFS".toList).isSome then ['\x00']
    else first
  between.intercalate p.parameters

/-- The value of a parameter. -/
def value? (p : Process) (m : Manner) (name : Octets) : Option Octets :=
  match name with
  | ['#'] => some (Octets.ofNat p.parameters.length)
  | ['?'] => some (Octets.ofNat p.status)
  | ['$'] => some (Octets.ofNat p.root)
  | ['!'] => p.background?.map Octets.ofNat
  | ['-'] => some (optionLetters.reverse.filter p.isOn)
  | ['@'] => some (allParameters p m true)
  | ['*'] => some (allParameters p m false)
  | _ =>
      match Octets.number? name with
      | some 0 => some p.title
      | some n => p.parameters[n - 1]?
      | none => p.value? name

/-- The marks of what an expansion gives. -/
def marksOf (quoted : Bool) (text : Octets) : List Mark :=
  text.map fun c => .char c (quoted && needsEscape c)

/-- What an expansion gives, as a stretch that may be split. -/
def given (quoted : Bool) (marks : List Mark) : Stretch :=
  ⟨if quoted then .whole else .split, marks⟩

/-- What the parameter of a name gives. -/
def givenBy (p : Process) (m : Manner) (name : Octets) (marks : List Mark) : Marked :=
  if m.quoted && name = ['@'] && !p.parameters.isEmpty then [⟨.parameters, marks⟩]
  else [given m.quoted marks]

def notSet (name : Octets) (reason : Octets) : Run α :=
  fail (name ++ ": ".toList ++ reason)

def badSubstitution : Run α := fail "Bad substitution".toList

/-- The value, or an error under the option that refuses parameters that are not set. -/
def demanded? (m : Manner) (name : Octets) : Run (Option Octets) := do
  let p ← process
  match value? p m name with
  | some v => return some v
  | none =>
      if p.isOn 'u' then notSet name "parameter not set".toList
      else return none

/-- The output of a command without the line ends at its end. NULs are dropped. -/
def trimOutput (text : Octets) : Octets :=
  ((text.filter (· != '\x00')).reverse.dropWhile (· == '\n')).reverse

/-- The value of an arithmetic text, with what it assigns. -/
def calculate (text : Octets) : Run Octets := do
  match Arithmetic.evaluate (← process).value? text with
  | .ok (n, assigned) =>
      assigned.forM fun (name, v) => assign name v false
      return Arithmetic.render n
  | .error fault => fail (fault.message text)

/-! ### Cutting a head or a tail away -/

/-- The mark stands between two parameters. -/
def Mark.endsParameter : Mark → Bool
  | .char c _ => c == '\x00'
  | .quotes => false

def Mark.isEscaped : Mark → Bool
  | .char _ escaped => escaped
  | .quotes => false

/-- The first of parameters with NULs between them. -/
def firstOf (value : List Mark) : List Mark :=
  value.takeWhile (!Mark.endsParameter ·)

/-- What is searched from its end: the whole value, or of several parameters the first if it
holds escaped characters. Its end then counts as the end of the value. -/
def searchedBackwards (value : List Mark) : List Mark :=
  if (firstOf value).any Mark.isEscaped then firstOf value else value

/-- The value without its shortest, or longest, head that fits. -/
def withoutHead (p : Pattern) (longest : Bool) (value : List Mark) : List Mark :=
  let searched := if longest then searchedBackwards value else firstOf value
  let skipped := if longest then value.length - searched.length else 0
  match p.headLength? longest (Mark.text searched) with
  | some n => value.drop (skipped + n)
  | none => value

/-- The value without its shortest, or longest, tail that fits. -/
def withoutTail (p : Pattern) (longest : Bool) (value : List Mark) : List Mark :=
  let searched := if longest then firstOf value else searchedBackwards value
  let skipped := if longest then 0 else value.length - searched.length
  match p.lengthBeforeTail? longest (Mark.text searched) with
  | some n => value.take (skipped + n)
  | none => value

/-! ### Words -/

/-- The part is all parameters, each in quotes of its own. -/
def isParameters : List Part → Bool
  | [.parameter ['@'] .plain _ _] => true
  | _ => false

/-- The stretches behind a run of characters that were written side by side. -/
def withRun (m : Manner) (run : List Mark) (done : Marked) : Marked :=
  if run.isEmpty then done
  else ⟨if m.inBraces && !m.quoted then .split else .whole, run.reverse⟩ :: done

mutual

/-- Expand the parts of a word behind those that are done, the last first. `passed` parts
belong to the name of a user; `run` holds the last characters that were written. -/
def parts (sub : Substituter) (m : Manner) (mayBeTilde : Bool) (passed : Nat) (run : List Mark)
    (done : Marked) : List Part → Run Marked
  | [] => return (withRun m run done).reverse
  | part :: rest => do
      match passed with
      | passed + 1 => parts sub m false passed run done rest
      | 0 =>
          let p ← process
          let home := match part with
            | .char '~' false =>
                if mayBeTilde then do
                  let user ← userName? m.tildeBehindColon rest
                  let home ← home? p user
                  pure (user, home)
                else none
            | _ => none
          match home with
          | some (user, home) =>
              let done := ⟨.whole, marksOf true home⟩ :: withRun m run done
              parts sub m false user.length [] done rest
          | none =>
              match part with
              | .char c true =>
                  let done := ⟨.whole, [.char c true]⟩ :: withRun m run done
                  parts sub m false 0 [] done rest
              | .char c false =>
                  let behindColon := m.tildeBehindColon && !m.quoted && c == ':'
                  parts sub m behindColon 0 (.char c false :: run) done rest
              | _ =>
                  let stretches ← expand sub m part
                  parts sub m false 0 [] (stretches.reverse ++ withRun m run done) rest

/-- What one part gives. -/
def expand (sub : Substituter) (m : Manner) : Part → Run Marked
  | .char c escaped => return [⟨.whole, [.char c escaped]⟩]
  | .quoted inner => do
      let marked ← parts sub { m with quoted := true } false 0 [] [] inner
      if !m.quoted && isParameters inner then return marked
      else return ⟨.whole, [.quotes]⟩ :: marked ++ [⟨.whole, [.quotes]⟩]
  | .output c => do
      return [given m.quoted (marksOf m.quoted (trimOutput (← sub c)))]
  | .arithmetic inner => do
      let text := Mark.text (← parts sub {} false 0 [] [] inner).marks
      return [given m.quoted (marksOf m.quoted (← calculate text))]
  | .parameter name use refusesEmpty word => do
      let isSet := fun (m : Manner) (p : Process) =>
        (value? p m name).any fun v => !(refusesEmpty && v.isEmpty)
      let plainly : Run Marked := do
        match ← demanded? m name with
        | some v => return givenBy (← process) m name (marksOf m.quoted v)
        | none => return []
      let inWord := { m with inBraces := true }
      let wordText : Run Octets := do
        return Mark.text (← parts sub {} true 0 [] [] word).marks
      match use with
      | .bad => badSubstitution
      | .plain => plainly
      | .length =>
          match ← demanded? {} name with
          | some v => return [given m.quoted (marksOf m.quoted (Octets.ofNat v.length))]
          | none => return [given m.quoted (marksOf m.quoted ['0'])]
      | .useDefault =>
          if isSet m (← process) then plainly
          else parts sub inWord true 0 [] [] word
      | .useAlternative =>
          if isSet {} (← process) then parts sub inWord true 0 [] [] word
          else return []
      | .assignDefault =>
          if isSet m (← process) then plainly
          else
            let v ← wordText
            if !isName name then fail (name ++ ": bad variable name".toList)
            assign name v false
            plainly
      | .require =>
          if isSet m (← process) then plainly
          else
            let text ← wordText
            let usual := if refusesEmpty then "parameter not set or null" else "parameter not set"
            notSet name (if word.isEmpty then usual.toList else text)
      | .cutHead longest =>
          match ← demanded? m name with
          | none => return []
          | some v =>
              let marks := (← parts sub {} true 0 [] [] word).marks
              let rest := withoutHead (Pattern.ofText (Mark.patternText false marks)) longest
                (marksOf m.quoted v)
              return givenBy (← process) m name rest
      | .cutTail longest =>
          match ← demanded? m name with
          | none => return []
          | some v =>
              let marks := (← parts sub {} true 0 [] [] word).marks
              let rest := withoutTail (Pattern.ofText (Mark.patternText false marks)) longest
                (marksOf m.quoted v)
              return givenBy (← process) m name rest

end

/-- The paths that a field stands for: its own text when nothing fits. -/
def paths (m : Machine) (field : List Mark) : List Octets :=
  let text := Mark.text field
  if m.process.isOn 'f' || !text.any (fun c => c == '*' || c == '?' || c == '[') then [text]
  else
    match Glob.paths m.tree (Mark.patternText false field) with
    | [] => [text]
    | found => found

/-- The fields of a word. -/
def fields (sub : Substituter) (w : Word) : Run (List Octets) := do
  let marked ← parts sub { toFields := true } true 0 [] [] w
  let m ← get
  return (splitFields m.process.separators none marked).flatMap (paths m)

/-- The fields of all words. -/
def allFields (sub : Substituter) (ws : List Word) : Run (List Octets) := do
  return (← ws.mapM (fields sub)).flatten

/-- The one text of a word that is not split. -/
def text (sub : Substituter) (w : Word) : Run Octets := do
  return Mark.text (← parts sub {} true 0 [] [] w).marks

/-- The value that a word assigns. -/
def value (sub : Substituter) (w : Word) : Run Octets := do
  return Mark.text (← parts sub { tildeBehindColon := true } true 0 [] [] w).marks

/-- The pattern that a word is. -/
def pattern (sub : Substituter) (w : Word) : Run Pattern := do
  return Pattern.ofText (Mark.patternText false (← parts sub {} true 0 [] [] w).marks)

/-- The text of a document. -/
def document (sub : Substituter) (w : Word) : Run Octets := do
  return Mark.text (← parts sub { quoted := true } false 0 [] [] w).marks

end Expansion

end NetHooks.Shell
