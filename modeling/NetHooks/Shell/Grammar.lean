import NetHooks.Shell.Reader

/-!
# Shell grammar

How words and commands are read. A script is read one complete command at a time, up to
the end of its last line, because a command can change how the next one is read.
-/
namespace NetHooks.Shell

inductive Quoting where
  | bare
  | double
  | arithmetic
  deriving DecidableEq, Repr

/-- Where the characters of a word stand. -/
structure Scope where
  quoting : Quoting := .bare
  /-- The scope ends at a closing brace. -/
  inBraces : Bool := false
  /-- The scope ends at a double quote. -/
  inQuotes : Bool := false
  /-- Braces are open, here or around the quotes. -/
  underBraces : Bool := false
  inDocument : Bool := false
  /-- The word is the mark of a document, in which nothing is expanded. -/
  isMark : Bool := false

namespace Scope

/-- Between double quotes that stand in this scope. -/
def quotes (s : Scope) : Scope where
  quoting := .double
  inQuotes := true
  underBraces := s.underBraces
  inDocument := s.inDocument
  isMark := s.isMark

/-- Between braces that stand in this scope. Patterns are not quoted by what is around. -/
def braces (s : Scope) (isPattern : Bool) : Scope where
  quoting := if isPattern || s.quoting = .bare then .bare else .double
  inBraces := true
  underBraces := true
  inDocument := s.inDocument

/-- The scope is a word by itself. -/
def isWord (s : Scope) : Bool :=
  s.quoting = .bare && !s.inBraces

/-- The scope is the text of a document itself. -/
def isText (s : Scope) : Bool :=
  s.inDocument && s.quoting = .double && !s.inBraces && !s.inQuotes

/-- Why the text cannot end in this scope. -/
def complaint? (s : Scope) : Option String :=
  if s.quoting = .arithmetic then some "Missing '))'"
  else if s.quoting = .double && !s.inDocument then some "Unterminated quoted string"
  else if s.underBraces then some "Missing '\x7d'"
  else none

/-- A backslash before the character stays. -/
def keepsBackslash (s : Scope) (c : Char) : Bool :=
  s.quoting != .bare && c != '\\' && c != backquote && c != '$' &&
    (c != '"' || (s.inDocument && !s.underBraces)) && (c != closeBrace || !s.underBraces)

end Scope

/-- What is looked for in a token. -/
structure Check where
  /-- Line ends do not count. -/
  passesLines : Bool := false
  keywords : Bool := false
  aliases : Bool := false
  /-- The token is the mark of a document. -/
  isMark : Bool := false

namespace Check

/-- A command may begin here. -/
def command : Check := { keywords := true, aliases := true }

/-- A command may begin here or on one of the next lines. -/
def commandBelow : Check := { command with passesLines := true }

/-- The pattern of a choice may begin here or on one of the next lines. -/
def armBelow : Check := { passesLines := true, keywords := true }

end Check

/-- How far a list of commands goes. -/
inductive Extent where
  /-- To the end of a line. -/
  | line
  /-- At least one command, to what cannot go on it. -/
  | some
  /-- To what cannot go on it. -/
  | any
  deriving DecidableEq, Repr

/-- The word that stands for all parameters. -/
def allParameters : Word :=
  [.quoted [.parameter ['@'] .plain false []]]

namespace Reader

def endsWord (c : Char) : Bool :=
  isBlank c || "\n<>();&|".toList.contains c

/-- Enough for every text that is read. -/
def usualFuel : Nat := 10000000

/-- What a reading that ends would not come to. -/
def exhausted : Reader α := failing "too long"

/-- The name of the parameter after an open brace, and whether its length is asked for. -/
def parameterName (fuel : Nat) : Reader (Option (Octets × Bool)) := do
  match ← peek with
  | none => return none
  | some c =>
      if isNameStart c then return some (← name fuel [], false)
      else if c.isDigit then return some (← digits fuel [], false)
      else if c = closeBrace then return none
      else
        skip
        if c != '#' then return if isSpecialName c then some ([c], false) else none
        match ← peek with
        | none => return some ([c], false)
        | some d =>
            if isNameStart d then return some (← name fuel [], true)
            else if d.isDigit then
              skip
              return some ([d], true)
            else
              let before ← get
              skip
              if d != closeBrace && (← peek) = some closeBrace then
                return if isSpecialName d then some ([d], true) else none
              else
                set before
                return some ([c], false)

/-- The use that a character asks for. -/
def use? : Char → Option Use
  | '-' => some .useDefault
  | '=' => some .assignDefault
  | '?' => some .require
  | '+' => some .useAlternative
  | _ => none

/-- What follows the name of a parameter: its use, whether an empty value counts as none,
and whether a word follows. -/
def parameterUse : Reader (Use × Bool × Bool) := do
  match ← peek with
  | none => return (.bad, false, true)
  | some c =>
      skip
      if c = closeBrace then return (.plain, false, false)
      else if c = '%' then return (.cutTail (← passes '%'), false, true)
      else if c = '#' then return (.cutHead (← passes '#'), false, true)
      else if c = ':' then
        match ← peek with
        | none => return (.bad, true, true)
        | some d =>
            skip
            return (if d = closeBrace then .plain else (use? d).getD .bad, true, true)
      else return ((use? c).getD .bad, false, true)

/-- The parts for what stands after a backslash. -/
def escaped (s : Scope) : Reader (List Part) := do
  match ← peekRaw with
  | none => return [.char '\\' true]
  | some c =>
      skip
      if s.keepsBackslash c then return [.char '\\' true, .char c true]
      else return [.char c true]

/-- The characters up to a single quote. -/
def singleQuoted (s : Scope) : Nat → List Part → Reader (List Part)
  | 0, _ => exhausted
  | fuel + 1, done => do
      match ← peekRaw with
      | none =>
          if s.inDocument then failing "Missing '\x7d'" else failing "Unterminated quoted string"
      | some c =>
          skipInside c
          if c = '\'' then return done.reverse
          else singleQuoted s fuel (.char c (needsEscape c) :: done)

/-- The lines up to a mark, of a document in which nothing is expanded. -/
def plainLines (d : Awaited) : Nat → Octets → Reader Octets
  | 0, done => return done
  | fuel + 1, done => do
      let i ← get
      let rest := if d.withoutTabs then i.rest.dropWhile (· == '\t') else i.rest
      match afterMark? d.mark rest with
      | some beyond =>
          set { i with rest := beyond, line := i.line + 1 }
          return done
      | none =>
          let line := rest.takeWhile (· != '\n')
          match rest.drop line.length with
          | [] =>
              set { i with rest := [] }
              return done ++ line
          | _ :: beyond =>
              set { i with rest := beyond, line := i.line + 1 }
              plainLines d fuel (done ++ line ++ ['\n'])

/-- Note the text of a document. -/
def found (d : Awaited) (text : Word) : Reader Unit :=
  modify fun i => { i with found := (d.index, text) :: i.found }

mutual

/-- The parts up to the end of the scope, behind those that are done. -/
def parts (fuel : Nat) (s : Scope) (parens : Nat) (done : List Part) : Reader (List Part) := do
  match fuel with
  | 0 => exhausted
  | fuel + 1 =>
      match ← peek with
      | none =>
          match s.complaint? with
          | some reason => failing reason
          | none => return done.reverse
      | some c =>
          if s.isWord && endsWord c then return done.reverse
          else if c = '\\' then
            skip
            parts fuel s parens ((← escaped s).reverse ++ done)
          else if c = '$' && !s.isMark then
            skip
            parts fuel s parens ((← dollar fuel s) :: done)
          else if c = backquote && !s.isMark then
            skip
            parts fuel s parens ((← backquoted fuel s) :: done)
          else if c = '\'' && s.quoting = .bare then
            skip
            let inner ← singleQuoted s fuel []
            parts fuel s parens (if s.inDocument then inner.reverse ++ done
              else .quoted inner :: done)
          else if c = '"' && s.quoting != .arithmetic && !s.isText then
            skip
            if s.inQuotes then return done.reverse
            let inner ← parts fuel s.quotes 0 []
            parts fuel s parens (if s.inDocument then inner.reverse ++ done
              else .quoted inner :: done)
          else if c = closeBrace && s.inBraces then
            skip
            return done.reverse
          else if c = ')' && s.quoting = .arithmetic && parens = 0 then
            skip
            if ← passes ')' then return done.reverse
            parts fuel s parens (.char c false :: done)
          else
            skipInside c
            let parens := if s.quoting != .arithmetic then 0
              else if c = '(' then parens + 1
              else if c = ')' then parens - 1
              else parens
            parts fuel s parens (.char c (s.quoting = .double && needsEscape c) :: done)

/-- What stands after a dollar sign. -/
def dollar (fuel : Nat) (s : Scope) : Reader Part := do
  match fuel, ← peek with
  | 0, _ => exhausted
  | _ + 1, none => return .char '$' false
  | fuel + 1, some c =>
      if c = '(' then
        skip
        if ← passes '(' then
          let inner : Scope := { quoting := .arithmetic, inDocument := s.inDocument }
          return .arithmetic (← parts fuel inner 0 [])
        else return .output (← substitution fuel)
      else if c = openBrace then
        skip
        braced fuel s
      else if isNameStart c then return .parameter (← name fuel []) .plain false []
      else if isSpecialName c then
        skip
        return .parameter [c] .plain false []
      else return .char '$' false

/-- What stands after an open brace. -/
def braced (fuel : Nat) (s : Scope) : Reader Part := do
  match fuel with
  | 0 => exhausted
  | fuel + 1 =>
      match ← parameterName fuel with
      | none => return .parameter [] .bad false (← parts fuel (s.braces false) 0 [])
      | some (name, true) =>
          let use := if (← peek) = some closeBrace then .length else .bad
          return .parameter name use false (← parts fuel (s.braces false) 0 [])
      | some (name, false) =>
          let (use, refusesEmpty, hasWord) ← parameterUse
          if !hasWord then return .parameter name use refusesEmpty []
          let isPattern := use matches .cutHead _ | .cutTail _
          return .parameter name use refusesEmpty (← parts fuel (s.braces isPattern) 0 [])

/-- The command up to the parenthesis that closes its substitution. A document that is not
read by then has no text. -/
def substitution (fuel : Nat) : Reader Command := do
  match fuel with
  | 0 => exhausted
  | fuel + 1 =>
      let around ← get
      set { around with awaited := [], mark? := none }
      let c ← list fuel .any
      if (← token fuel {}) ≠ .closeParen then unexpected (some .closeParen)
      (← get).awaited.forM fun d => found d []
      modify fun i => { i with awaited := around.awaited, mark? := around.mark? }
      return c

/-- The command between backquotes. It is read for itself, as far as it goes. -/
def backquoted (fuel : Nat) (s : Scope) : Reader Part := do
  match fuel with
  | 0 => exhausted
  | fuel + 1 =>
      let text ← untilBackquote (s.quoting != .bare) fuel []
      let around ← get
      set { around with
        rest := text
        line := 1
        active := around.active.map fun (a : ActiveAlias) => { a with beyond := 0 }
        awaited := []
        mark? := none }
      let c ← list fuel .any
      documents fuel
      modify fun i => { i with
        rest := around.rest
        line := around.line
        active := around.active
        again := false
        awaited := around.awaited
        mark? := around.mark? }
      return .output c

/-- Read the documents that are awaited. -/
def documents (fuel : Nat) : Reader Unit := do
  match fuel, (← get).awaited with
  | 0, _ => exhausted
  | _ + 1, [] => return
  | fuel + 1, d :: more =>
      modify fun i => { i with awaited := more }
      if d.expanded then
        modify fun i => { i with
          mark? := some (d.mark, d.withoutTabs)
          depth := i.depth + 1
          deepest := max i.deepest (i.depth + 1) }
        checkMark
        let text ← parts fuel { quoting := .double, inDocument := true } 0 []
        modify fun i => { i with mark? := none, reached := false, depth := i.depth - 1 }
        found d text
      else
        modify fun i => { i with deepest := max i.deepest (i.depth + 1) }
        found d ((← plainLines d fuel []).map (.char · false))
      documents fuel

/-- The next token as it stands. -/
def rawToken (fuel : Nat) (isMark : Bool) : Reader Token := do
  match fuel with
  | 0 => exhausted
  | fuel + 1 =>
      modify fun i =>
        let (rest, line) := skipSpace false i.rest i.line
        { i with rest, line }
      match ← peek with
      | none => gives .fileEnd
      | some '\n' =>
          skip
          gives .lineEnd
      | some '&' => operator '&' .ampersand .both
      | some '|' => operator '|' .pipe .either
      | some ';' => operator ';' .semicolon .armEnd
      | some '(' =>
          skip
          gives .openParen
      | some ')' =>
          skip
          gives .closeParen
      | some _ =>
          let w ← parts fuel { isMark } 0 []
          let redirects := (← peek).any fun c => c == '<' || c == '>'
          match w with
          | [] =>
              takeRedirection none
              gives .redirection
          | [.char d false] =>
              if redirects && d.isDigit then
                takeRedirection (some (d.toNat - '0'.toNat))
                gives .redirection
              else
                modify fun i => { i with word := w }
                gives .word
          | _ =>
              modify fun i => { i with word := w }
              gives .word

/-- The next token, with aliases replaced. -/
def token (fuel : Nat) (check : Check) : Reader Token := do
  match fuel with
  | 0 => exhausted
  | fuel + 1 =>
      let i ← get
      let t ← if i.again then do
          set { i with again := false }
          pure i.token
        else rawToken fuel check.isMark
      if t = .lineEnd && check.passesLines then
        documents fuel
        token fuel check
      else
        let follows ← leaveAliases
        let check := { check with aliases := check.aliases || follows }
        if t ≠ .word then return t
        let w := (← get).word
        match Word.plain? w with
        | none => return t
        | some text =>
            if check.keywords && isKeyword text then gives (.keyword (String.ofList text))
            else if !check.aliases then return t
            else match ← alias? w with
              | some (name, value) =>
                  pushAlias name value
                  token fuel check
              | none => return t

/-- A list of commands; none where the text ends before a line begins. -/
def listOrEnd (fuel : Nat) (extent : Extent) (isFirst : Bool) (before? : Option Command) :
    Reader (Option Command) := do
  match fuel with
  | 0 => exhausted
  | fuel + 1 =>
      match ← token fuel { Check.command with passesLines := extent ≠ .line } with
      | .lineEnd =>
          documents fuel
          return some (before?.getD .nothing)
      | .fileEnd =>
          documents fuel
          modify fun i => { i with token := .fileEnd, again := true }
          return if before?.isNone && extent = .line then none else some (before?.getD .nothing)
      | t =>
          pushBack
          let mayEnd := extent = .any || (extent = .some && !isFirst)
          if mayEnd && t.endsList then return some (before?.getD .nothing)
          let c ← andOr fuel
          let t ← token fuel {}
          let c := if t = .ampersand then c.inBackground else c
          let all := match before? with
            | some before => .sequence before c
            | none => c
          match t with
          | .fileEnd =>
              documents fuel
              modify fun i => { i with token := .fileEnd, again := true }
              return some all
          | .lineEnd =>
              pushBack
              listOrEnd fuel extent false (some all)
          | .ampersand | .semicolon => listOrEnd fuel extent false (some all)
          | _ =>
              if extent = .line then unexpected none
              pushBack
              return some all

def list (fuel : Nat) (extent : Extent) : Reader Command := do
  match fuel with
  | 0 => exhausted
  | fuel + 1 => return (← listOrEnd fuel extent true none).getD .nothing

def andOr (fuel : Nat) : Reader Command := do
  match fuel with
  | 0 => exhausted
  | fuel + 1 =>
      let c ← pipeline fuel {}
      andOrOn fuel c

/-- What follows a first command. -/
def andOrOn (fuel : Nat) (first : Command) : Reader Command := do
  match fuel with
  | 0 => exhausted
  | fuel + 1 =>
      match ← token fuel {} with
      | .both => andOrOn fuel (.both first (← pipeline fuel .commandBelow))
      | .either => andOrOn fuel (.either first (← pipeline fuel .commandBelow))
      | _ =>
          pushBack
          return first

def pipeline (fuel : Nat) (check : Check) : Reader Command := do
  match fuel with
  | 0 => exhausted
  | fuel + 1 =>
      let negated := (← token fuel check) = .keyword "!"
      if !negated then pushBack
      let c ← command fuel (if negated then .command else {})
      let more ← piped fuel []
      let all := if more.isEmpty then c else .pipeline false (c :: more)
      return if negated then .negation all else all

/-- The commands behind pipes. -/
def piped (fuel : Nat) (done : List Command) : Reader (List Command) := do
  match fuel with
  | 0 => exhausted
  | fuel + 1 =>
      match ← token fuel {} with
      | .pipe => piped fuel ((← command fuel .commandBelow) :: done)
      | _ =>
          pushBack
          return done.reverse

/-- Pass over a keyword. -/
def expect (fuel : Nat) (wanted : Token) (check : Check) : Reader Unit := do
  match fuel with
  | 0 => exhausted
  | fuel + 1 => if (← token fuel check) ≠ wanted then unexpected (some wanted)

/-- The command that stands here, and what it is redirected to. -/
def command (fuel : Nat) (check : Check) : Reader Command := do
  match fuel with
  | 0 => exhausted
  | fuel + 1 =>
      let line := (← get).line
      match ← token fuel check with
      | .keyword "if" =>
          let c ← branches fuel
          redirected fuel line c
      | .keyword "while" =>
          let condition ← list fuel .some
          expect fuel (.keyword "do") {}
          let body ← list fuel .some
          expect fuel (.keyword "done") {}
          redirected fuel line (.loop true condition body)
      | .keyword "until" =>
          let condition ← list fuel .some
          expect fuel (.keyword "do") {}
          let body ← list fuel .some
          expect fuel (.keyword "done") {}
          redirected fuel line (.loop false condition body)
      | .keyword "for" =>
          let c ← each fuel line
          redirected fuel line c
      | .keyword "case" =>
          expect fuel .word {}
          let subject := (← get).word
          expect fuel (.keyword "in") .commandBelow
          let c := .choice line subject (← arms fuel [])
          redirected fuel line c
      | .openParen =>
          let body ← list fuel .some
          expect fuel .closeParen {}
          redirected fuel line (.subshell line body [])
      | .keyword "\x7b" =>
          let body ← list fuel .some
          expect fuel (.keyword "\x7d") {}
          redirected fuel line body
      | .word | .redirection =>
          pushBack
          simple fuel (← get).line [] [] []
      | _ => unexpected none

/-- The redirections after a command that is no simple one. -/
def redirected (fuel line : Nat) (c : Command) : Reader Command := do
  match fuel with
  | 0 => exhausted
  | fuel + 1 => return c.behind line (← redirections fuel .command [])

def redirections (fuel : Nat) (check : Check) (done : List Redirection) :
    Reader (List Redirection) := do
  match fuel with
  | 0 => exhausted
  | fuel + 1 =>
      match ← token fuel check with
      | .redirection => redirections fuel {} ((← redirection fuel) :: done)
      | _ =>
          pushBack
          return done.reverse

/-- The redirection whose operator was the last token. -/
def redirection (fuel : Nat) : Reader Redirection := do
  match fuel with
  | 0 => exhausted
  | fuel + 1 =>
      let i ← get
      let .mk descriptor target := i.redirection
      let isMark := target matches .document ..
      if (← token fuel { isMark }) ≠ .word then unexpected none
      let j ← get
      let w := j.word
      match target with
      | .file mode _ => return ⟨descriptor, .file mode w⟩
      | .copy _ => return ⟨descriptor, .copy w⟩
      | .document .. =>
          let expanded := w.all (· matches .char _ false)
          let d : Awaited := ⟨j.count, Word.characters w, i.withoutTabs, expanded⟩
          set { j with count := j.count + 1, awaited := j.awaited ++ [d] }
          return ⟨descriptor, .document (j.known[d.index]?.getD []) expanded⟩

/-- A condition with what depends on it, up to the end of all its branches. -/
def branches (fuel : Nat) : Reader Command := do
  match fuel with
  | 0 => exhausted
  | fuel + 1 =>
      let condition ← list fuel .some
      expect fuel (.keyword "then") {}
      let yes ← list fuel .some
      match ← token fuel {} with
      | .keyword "elif" => return .branch condition yes (some (← branches fuel))
      | .keyword "else" =>
          let no ← list fuel .some
          expect fuel (.keyword "fi") {}
          return .branch condition yes (some no)
      | .keyword "fi" => return .branch condition yes none
      | _ => unexpected (some (.keyword "fi"))

/-- A loop over words, or else over the parameters. -/
def each (fuel line : Nat) : Reader Command := do
  match fuel with
  | 0 => exhausted
  | fuel + 1 =>
      let t ← token fuel {}
      match Word.plain? (← get).word with
      | none => failing "Bad for loop variable"
      | some name =>
          if t ≠ .word || !isName name then failing "Bad for loop variable"
          let values ← match ← token fuel .commandBelow with
            | .keyword "in" => wordsUpToEnd fuel []
            | t => do
                if t ≠ .semicolon then pushBack
                pure [allParameters]
          expect fuel (.keyword "do") .commandBelow
          let body ← list fuel .some
          expect fuel (.keyword "done") {}
          return .each line name values body

/-- Words up to the end of a line or a semicolon. -/
def wordsUpToEnd (fuel : Nat) (done : List Word) : Reader (List Word) := do
  match fuel with
  | 0 => exhausted
  | fuel + 1 =>
      match ← token fuel {} with
      | .word => wordsUpToEnd fuel ((← get).word :: done)
      | .lineEnd | .semicolon => return done.reverse
      | _ => unexpected none

/-- The arms of a choice. -/
def arms (fuel : Nat) (done : List (List Word × Command)) :
    Reader (List (List Word × Command)) := do
  match fuel with
  | 0 => exhausted
  | fuel + 1 =>
      match ← token fuel .armBelow with
      | .keyword "esac" => return done.reverse
      | t =>
          if t = .openParen then
            let _ ← token fuel {}
          let patterns ← patternsUpToParen fuel [(← get).word]
          let body ← list fuel .any
          let done := (patterns, body) :: done
          match ← token fuel .armBelow with
          | .keyword "esac" => return done.reverse
          | .armEnd => arms fuel done
          | _ => unexpected (some .armEnd)

/-- The patterns behind the first one, up to a closing parenthesis. -/
def patternsUpToParen (fuel : Nat) (done : List Word) : Reader (List Word) := do
  match fuel with
  | 0 => exhausted
  | fuel + 1 =>
      match ← token fuel {} with
      | .pipe =>
          let _ ← token fuel {}
          patternsUpToParen fuel ((← get).word :: done)
      | .closeParen => return done.reverse
      | _ => unexpected (some .closeParen)

/-- A simple command, behind what is read of it, or the definition of a function. -/
def simple (fuel line : Nat) (assignments : List (Octets × Word)) (words : List Word)
    (rs : List Redirection) : Reader Command := do
  match fuel with
  | 0 => exhausted
  | fuel + 1 =>
      match ← token fuel { aliases := words.isEmpty } with
      | .word =>
          let w := (← get).word
          match (if words.isEmpty then Word.assignment? w else none) with
          | some a => simple fuel line (a :: assignments) words rs
          | none => simple fuel line assignments (w :: words) rs
      | .redirection => simple fuel line assignments words ((← redirection fuel) :: rs)
      | t =>
          match t, words with
          | .openParen, [w] =>
              if assignments.isEmpty && rs.isEmpty then define fuel w
              else
                pushBack
                return .simple line assignments.reverse words.reverse rs.reverse
          | _, _ =>
              pushBack
              return .simple line assignments.reverse words.reverse rs.reverse

/-- The definition of a function, after its name and a parenthesis. -/
def define (fuel : Nat) (w : Word) : Reader Command := do
  match fuel with
  | 0 => exhausted
  | fuel + 1 =>
      expect fuel .closeParen {}
      match Word.plain? w with
      | none => failing "Bad function name"
      | some name =>
          if !isName name || isSpecialCommand name then failing "Bad function name"
          let line := (← get).line
          return .define line name (← command fuel .commandBelow)

end

/-- The word that a text is, read as the text of a document. -/
def documentText (text : Octets) : Except SyntaxError Word := do
  let (w, _) ← (parts usualFuel { quoting := .double, inDocument := true } 0 []).run
    { rest := text }
  return w

/-- Read a command with the documents that are known. -/
def once (known : List Word) (i : Input) : Except SyntaxError (Option Command × Input) :=
  (listOrEnd usualFuel .line true none).run
    { i with known, again := false, awaited := [], found := [], count := 0, deepest := 0 }

/-- Read the command again with the documents that were found. Each round fills those that
stand one document deeper. -/
def again : Nat → Input → Option Command × Input → Except SyntaxError (Option Command × Input)
  | 0, _, r => .ok r
  | rounds + 1, i, r => do
      let known := (List.range r.2.count).map fun n => (r.2.found.lookup n).getD []
      again rounds i (← once known i)

/-- The next complete command and the input after it; no command at the end. -/
def next (i : Input) : Except SyntaxError (Option Command × Input) := do
  let r ← once [] i
  again r.2.deepest i r

end Reader

end NetHooks.Shell
