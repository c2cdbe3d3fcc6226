import NetHooks.Shell.Builtin.Table
import NetHooks.Shell.Start

/-!
# Simple commands

A simple command is expanded, its redirections are carried out, its variables are set, and
what its first word names is run: a function, a builtin or a program.
-/
namespace NetHooks.Shell

/-! ### What a command is -/

/-- A simple command whose first words are expanded. -/
structure Heading where
  /-- The words in front of the name that ask for no function. -/
  passed : List Octets := []
  fields : List Octets := []
  /-- The words that are still to be expanded. -/
  words : List Word
  /-- Whether the first builtin is a special one, if there is one. -/
  isSpecial? : Option Bool := none
  isBuiltin : Bool := false
  /-- The command stands behind `command`, and where it is looked for then. -/
  isPlain : Bool := false
  searchPath? : Option Octets := none

namespace Heading

def name (h : Heading) : Octets :=
  h.fields.headD []

/-- Expand words until there is another field behind so many. -/
def fill (sub : Substituter) (h : Heading) (count : Nat) : Run Heading := do
  go h.fields h.words
where
  go (fields : List Octets) : List Word → Run Heading
    | [] => return { h with fields, words := [] }
    | w :: ws =>
        if count < fields.length then return { h with fields, words := w :: ws }
        else do go (fields ++ (← Expansion.fields sub w)) ws

/-- Pass over the options of `command`, from a field on: the number of the field behind them, if
they ask for nothing but the search path, and whether they do. -/
def behindOptions (sub : Substituter) : Nat → Bool → Nat → Heading →
    Run (Heading × Option (Nat × Bool))
  | 0, _, _, h => return (h, none)
  | fuel + 1, usual, n, h => do
      let h ← h.fill sub n
      match h.fields[n]? with
      | none => return (h, none)
      | some ['-', '-'] =>
          let h ← h.fill sub (n + 1)
          return (h, if n + 1 < h.fields.length then some (n + 1, usual) else none)
      | some ('-' :: c :: letters) =>
          if (c :: letters).all (· == 'p') then behindOptions sub fuel true (n + 1) h
          else return (h, none)
      | some _ => return (h, some (n, usual))

/-- Find out what kind of command the name stands for. -/
def classify (sub : Substituter) : Nat → Heading → Run Heading
  | 0, h => return h
  | fuel + 1, h => do
      let isFunction := !h.isPlain && ((← process).function? h.name).isSome
      if isFunction || !Shell.isBuiltin h.name then return { h with isBuiltin := false }
      let isSpecial? := h.isSpecial?.or (some (isSpecialCommand h.name))
      let h := { h with isSpecial?, isBuiltin := true }
      if h.name ≠ "command".toList then return h
      match ← behindOptions sub fuel false 1 h with
      | (h, none) => return h
      | (h, some (n, usual)) =>
          classify sub fuel { h with
            passed := h.passed ++ h.fields.take n
            fields := h.fields.drop n
            isPlain := true
            searchPath? := if usual then some usualSearchPath else h.searchPath? }

/-- The operands of these builtins may be assignments. -/
def takesAssignments (name : Octets) : Bool :=
  ["alias", "export", "local", "readonly"].contains (String.ofList name)

/-- Expand the words that are left. -/
def complete (sub : Substituter) (h : Heading) : Run Heading := do
  let mayAssign := h.isBuiltin && takesAssignments h.name
  let more ← h.words.mapM fun w => do
    match if mayAssign then Word.assignment? w else none with
    | some (name, value) => return [name ++ '=' :: (← Expansion.value sub value)]
    | none => Expansion.fields sub w
  return { h with fields := h.fields ++ more.flatten, words := [] }

/-- The heading of a simple command, all of it expanded. -/
def ofWords (x : Interpreter) (words : List Word) : Run Heading := do
  let h ← fill x.substitute { words } 0
  if h.fields.isEmpty then return h
  (← classify x.substitute x.rounds h).complete x.substitute

/-- An error in the command ends the shell. -/
def isSpecial (h : Heading) : Bool :=
  h.isSpecial? == some true

/-- Its assignments hold for the command alone. -/
def hasFrame (h : Heading) : Bool :=
  !h.fields.isEmpty && !h.isSpecial

/-- The command makes its redirections for good. -/
def isExec (h : Heading) : Bool :=
  h.isBuiltin && h.name = "exec".toList

end Heading

namespace Interpreter

/-! ### Programs -/

/-- Go on as a program. What is no program is a script. -/
def become (x : Interpreter) (path : Octets) (fields : List Octets) : Run α := do
  let m ← get
  let environment := m.process.environment
  let (name, operands) := (fields.headD [], fields.drop 1)
  let image ← match Image.load m.tree path name operands environment with
    | .ok image => pure image
    | .error .notExecutable => pure ⟨Image.shellPath.toList, path :: operands⟩
    | .error e => do
        report (name ++ ": ".toList ++ missingText e)
        setStatus (missingStatus e)
        throw .leave
  throw (.ended (← Start.shell x image environment))

/-- Run a program, as a child unless the process has nothing else to do. -/
def runProgram (x : Interpreter) (at_ : Stance) (h : Heading) : Run Nat := do
  match ← findPath h.searchPath? h.name with
  | .error e =>
      report (h.name ++ ": ".toList ++ missingText e)
      return 127
  | .ok path =>
      if at_.last && !(← process).hasTraps then x.become path h.fields
      else waited [← x.fork id (x.become path h.fields)]

/-! ### Builtins -/

/-- Run the commands that the operands are. -/
def eval (x : Interpreter) (at_ : Stance) : Builtin := fun ws =>
  x.runText { at_ with last := false } ([' '].intercalate ws)

/-- Become the program that the operands name, if there are any. -/
def exec (x : Interpreter) : Builtin := fun ws => do
  match ws with
  | [] => return 0
  | name :: _ =>
      let m ← get
      let path := if name.contains '/' then .ok name
        else findProgram m.tree m.process.searchPath name
      match path with
      | .ok path => x.become path ws
      | .error e =>
          report (name ++ ": ".toList ++ missingText e)
          setStatus (missingStatus e)
          throw .leave

/-- The path of a file that is sourced: a name without a slash is searched for. -/
def sourcePath (name : Octets) : Run Octets := do
  if name.contains '/' then return name
  let m ← get
  match (candidates m.process.searchPath name).find? (m.tree.isFile <| Octets.decode ·) with
  | some path => return path
  | none => fail (name ++ ": not found".toList)

/-- Run the commands of a file here. -/
def dot (x : Interpreter) : Builtin := fun ws => do
  match ← Builtin.operands ws with
  | [] => return 0
  | name :: _ =>
      let path ← sourcePath name
      let text ← Start.readFile path
      changeProcess ({ · with source := path })
      x.runFile text

def builtin? (x : Interpreter) (at_ : Stance) (name : Octets) : Option Builtin :=
  match String.ofList name with
  | "eval" => some (x.eval at_)
  | "exec" => some x.exec
  | "." => some x.dot
  | "wait" => some (Builtin.wait (x.settle true true))
  | _ => Builtin.ofName? name

/-- Run a builtin. What it printed is written at its end. -/
def runBuiltin (name : Octets) (b : Builtin) (operands : List Octets) : Run Unit := do
  let source := (← process).source
  changeProcess ({ · with source := name, unwritten := [] })
  let r ← captured do
    let status ← b operands
    if ← flush then setStatus status
    else
      report (name ++ ": I/O error".toList)
      setStatus (status ||| 1)
  changeProcess ({ · with source, unwritten := [] })
  match r with
  | .ok () => return
  | .error s => throw s

/-! ### Functions -/

/-- How many functions may be around a command. -/
def callLimit : Nat := 1000

/-- Run a function on operands, which are its parameters. -/
def call (x : Interpreter) (tested : Bool) (body : Command) (operands : List Octets) :
    Run Unit := do
  let p ← process
  if callLimit ≤ p.calls then
    fail ("Maximum function recursion depth (" ++ toString callLimit ++ ") reached").toList
  changeProcess fun q =>
    { q with parameters := operands, loops := 0, calls := p.calls + 1 }.restartOptions 1
  let r ← captured (x.evaluate { tested } body)
  changeProcess fun q =>
    { q with
      parameters := p.parameters
      loops := p.loops
      calls := p.calls
      optionIndex := p.optionIndex
      optionOffset? := p.optionOffset? }
  match r with
  | .error s => throw s
  | .ok _ =>
      changeProcess fun q => match q.skip? with
        | some (.giveBack _) => { q with skip? := none }
        | _ => q

/-! ### Commands -/

/-- What stands before the commands that are shown. A text that cannot be expanded stands there
itself. -/
def traceStart (x : Interpreter) : Run Octets := do
  let p ← process
  let text := (p.value? "PS4".toList).getD []
  match Reader.documentText text with
  | .error e =>
      report e.message
      return text
  | .ok w =>
      changeProcess (·.setOption 'x' false)
      let r ← captured (Expansion.document x.substitute w)
      changeProcess (·.setOption 'x' true)
      match r with
      | .ok s => return s
      | .error .fault => return text
      | .error s => throw s

/-- Show a command before it runs, at the error output as it was before its redirections. -/
def trace (x : Interpreter) (errorEnd? : Option Endpoint) (assigned : List (Octets × Octets))
    (fields : List Octets) : Run Unit := do
  if (← process).isOn 'x' then
    let start ← x.traceStart
    let texts := assigned.map (fun (name, value) => name ++ '=' :: value) ++ fields
    errorEnd?.forM fun e => do
      let _ ← writeTo e (start ++ [' '].intercalate texts ++ ['\n'])

/-- Carry out an assignment before a command; the value that is assigned. -/
def assignFor (x : Interpreter) (h : Heading) (a : Octets × Word) : Run (Octets × Octets) := do
  let value ← Expansion.value x.substitute a.2
  if h.hasFrame then keepForFrame a.1
  assign a.1 value (h.hasFrame || (h.isExec && 1 < h.fields.length))
  return (a.1, value)

/-- Run what a heading names; its status. -/
def perform (x : Interpreter) (at_ : Stance) (h : Heading) : Run Nat := do
  let operands := h.fields.drop 1
  if h.fields.isEmpty then return (← process).outputStatus
  match h.isBuiltin, x.builtin? at_ h.name, (← process).function? h.name with
  | true, some b, _ =>
      match ← captured (runBuiltin h.name b operands) with
      | .ok () => pure ()
      | .error s => if s = .fault && !h.isSpecial then pure () else throw s
      return (← process).status
  | false, _, some body =>
      if h.isPlain then x.runProgram at_ h
      else
        x.call at_.tested body operands
        return (← process).status
  | _, _, _ => x.runProgram at_ h

/-- Run a simple command. -/
def runSimple (x : Interpreter) (at_ : Stance) (line : Nat) (assignments : List (Octets × Word))
    (words : List Word) (rs : List Redirection) : Run Nat := do
  changeProcess ({ · with line, outputStatus := 0 })
  let h ← Heading.ofWords x words
  let depth := (← process).frames.length
  if h.hasFrame then openFrame
  let ds ← rs.mapM (Diversion.ofRedirection x.substitute)
  let before ← Diversion.before ds
  let errorEnd? := (← process).endpoint? 2
  let status ← Diversion.carryOutAll x.substitute ds
  if status ≠ 0 then
    if h.isSpecial || !h.isExec then before.restore
    setStatus status
    if h.isSpecial then throw .fault
    closeFrames depth
    return status
  else
    let status ← before.around do
      let assigned ← assignments.mapM (x.assignFor h)
      x.trace errorEnd? assigned (h.passed ++ h.fields)
      x.perform at_ h
    if !h.isExec then before.restore
    closeFrames depth
    return status

end Interpreter

end NetHooks.Shell
