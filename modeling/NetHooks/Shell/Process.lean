import NetHooks.Catalog
import NetHooks.ExitStatus
import NetHooks.Shell.Command
import NetHooks.Shell.System

/-!
# Shell processes

The state of a running shell, and what every part of it does: it writes, it reports what
is wrong, and it sets variables.
-/
namespace NetHooks.Shell

structure Variable where
  /-- `none` for a name that is marked and has no value yet. -/
  value? : Option Octets := none
  exported : Bool := false
  readOnly : Bool := false
  /-- It keeps its marks when its value is taken away. -/
  isFixed : Bool := false

/-- What is put back at the end of a function. -/
inductive Saved where
  | binding (name : Octets) (before? : Option Variable)
  | options (before : List Char)

/-- Why the commands that follow are passed over. -/
inductive Skip where
  /-- So many loops end. -/
  | breakOut (loops : Nat)
  /-- All but the last of so many loops end, and that one goes on. -/
  | resume (loops : Nat)
  /-- A function or a sourced file ends, with a status of its own or not. -/
  | giveBack (hasStatus : Bool)
  deriving DecidableEq, Repr

/-- Processes that were started together in the background. -/
structure Job where
  number : Nat
  processes : List Nat
  wasWaitedFor : Bool := false

/-- A program that was found on the search path. -/
structure Located where
  name : Octets
  path : Octets
  /-- The shell has changed its directory since. -/
  isStale : Bool := false

structure Process where
  number : Nat
  parent : Nat
  /-- The number of the shell that this process came from. -/
  root : Nat
  /-- The name that the shell was called by. -/
  title : Octets
  parameters : List Octets := []
  /-- Which parameter options are looked for in, and how far into it. -/
  optionIndex : Nat := 1
  optionOffset? : Option Nat := none
  bindings : Catalog Variable := .empty
  functions : Catalog Command := .empty
  aliases : List (Octets × Octets) := []
  /-- The status of the last command, and of the last one whose output was taken. -/
  status : Nat := 0
  outputStatus : Nat := 0
  /-- The status with which the shell ends, where that is not the one of the last command. -/
  finalStatus? : Option Nat := none
  /-- The line of the running command, and the one that is read. -/
  line : Nat := 0
  inputLine : Nat := 0
  /-- The letters of the options that are on. -/
  options : List Char := []
  endpoints : List (Nat × Endpoint)
  /-- What the running builtin has printed, the last text first. -/
  unwritten : List Octets := []
  /-- How many loops are around the command, and how many functions. -/
  loops : Nat := 0
  calls : Nat := 0
  skip? : Option Skip := none
  /-- What functions and assignments around the command put back, the innermost first. -/
  frames : List (List Saved) := []
  /-- What to run at signals, in the order of their numbers; the number of the end of the
  shell is 0. -/
  traps : List (Nat × Octets) := []
  /-- The signals that the process was told to ignore when it was started. -/
  ignored : List Nat := []
  /-- The signals that have come in and are still to be answered. -/
  pending : List Nat := []
  /-- The builtin or the file that messages speak for; empty for the script itself. -/
  source : Octets := []
  place : Place
  /-- The path of the place, by the links that led there. -/
  directory : Octets
  jobs : List Job := []
  background? : Option Nat := none
  /-- The rights that new files do not get. -/
  mask : Nat := 0o022
  /-- Programs that were found, the first one first. -/
  located : List Located := []

/-- What runs in the background. -/
inductive Work where
  | single (body : Command)
  /-- A command looks at the status of the pipeline, or not. -/
  | pipeline (tested : Bool) (commands : List Command)

/-- Processes that wait for their turn in the background. -/
structure Waiting where
  /-- The process that started them, as it was then. -/
  starter : Process
  numbers : List Nat
  work : Work

/-- All that a running shell changes. -/
structure Machine where
  process : Process
  system : System
  lastProcess : Nat
  /-- The processes around this one, the innermost first. -/
  around : List Nat := []
  /-- The processes that wait for their turn, the first first. -/
  waiting : List Waiting := []
  /-- How processes in the background ended. -/
  ended : List (Nat × ExitStatus) := []
  /-- Signals that were sent to processes that do not run just now. -/
  sent : List (Nat × Nat) := []

/-- Why a shell does not go on. -/
inductive Stop where
  /-- The shell ends. -/
  | leave
  /-- Something is wrong; what runs the command may go on behind it. -/
  | fault
  /-- The process has come to its end. -/
  | ended (status : ExitStatus)
  deriving DecidableEq, Repr

/-- What a shell does: it changes its machine, and may stop. -/
abbrev Run := ExceptT Stop (StateM Machine)

def key (name : Octets) : String := String.ofList name

/-- The options by their names, with their letters. Those that have a name alone have a letter
that is no octet. -/
def optionNames : List (String × Char) :=
  [("errexit", 'e'), ("noglob", 'f'), ("ignoreeof", 'I'), ("interactive", 'i'),
    ("monitor", 'm'), ("noexec", 'n'), ("stdin", 's'), ("xtrace", 'x'), ("verbose", 'v'),
    ("vi", 'V'), ("emacs", 'E'), ("noclobber", 'C'), ("allexport", 'a'), ("notify", 'b'),
    ("nounset", 'u'), ("privileged", 'p'), ("nolog", '\u0100'), ("debug", '\u0101')]

def optionLetters : List Char :=
  (optionNames.map (·.2)).filter (·.toNat < 256)

namespace Process

def binding (p : Process) (name : Octets) : Variable :=
  (p.bindings.get? (key name)).getD {}

def value? (p : Process) (name : Octets) : Option Octets :=
  (p.binding name).value?

def setVariable (p : Process) (name : Octets) (v : Variable) : Process :=
  { p with bindings := p.bindings.insert (key name) v }

def removeVariable (p : Process) (name : Octets) : Process :=
  { p with bindings := p.bindings.erase (key name) }

def isOn (p : Process) (letter : Char) : Bool :=
  p.options.contains letter

def setOption (p : Process) (letter : Char) (on : Bool) : Process :=
  let others := p.options.filter (· != letter)
  { p with options := if on then letter :: others else others }

/-- The separators of fields. -/
def separators (p : Process) : Octets :=
  (p.value? "IFS".toList).getD " \t\n".toList

def endpoint? (p : Process) (descriptor : Nat) : Option Endpoint :=
  p.endpoints.lookup descriptor

def setEndpoint (p : Process) (descriptor : Nat) (e? : Option Endpoint) : Process :=
  { p with
    endpoints := (e?.map (descriptor, ·)).toList ++ p.endpoints.filter (·.1 != descriptor) }

/-- What is to run at a signal. -/
def trap? (p : Process) (signal : Nat) : Option Octets :=
  p.traps.lookup signal

/-- Set what runs at a signal. -/
def setTrap (p : Process) (signal : Nat) (action? : Option Octets) : Process :=
  let (below, others) := (p.traps.filter (·.1 != signal)).partition (·.1 < signal)
  { p with traps := below ++ (action?.map (signal, ·)).toList ++ others }

/-- Something is to run at some signal. -/
def hasTraps (p : Process) : Bool :=
  p.traps.any (!·.2.isEmpty)

def ignores (p : Process) (signal : Nat) : Bool :=
  p.trap? signal == some [] || p.ignored.contains signal

/-- The process that a process starts: only what it ignores is still set at signals. -/
def child (p : Process) (number : Nat) : Process :=
  { p with
    number
    parent := p.number
    traps := p.traps.filter (·.2.isEmpty)
    pending := []
    jobs := []
    unwritten := [] }

/-- The environment that commands receive. -/
def environment (p : Process) : List (Octets × Octets) :=
  p.bindings.entries.filterMap fun (name, v) =>
    if v.exported then v.value?.map (name.toList, ·) else none

/-- Options are looked for from a parameter on. -/
def restartOptions (p : Process) (index : Nat) : Process :=
  { p with optionIndex := index, optionOffset? := none }

/-- The number of the first job that is free. -/
def freeJobNumber (p : Process) : Nat :=
  ((List.range (p.jobs.length + 1)).find? fun n => p.jobs.all (·.number != n + 1)).getD 0 + 1

end Process

namespace Machine

/-- The files, seen from where the process is. -/
def tree (m : Machine) : FileTree :=
  { m.system.tree with workplace := m.process.place }

def setTree (m : Machine) (tree : FileTree) : Machine :=
  { m with system := { m.system with tree } }

end Machine

def process : Run Process := do
  return (← get).process

/-- What comes of something, where even a stop is a result. -/
def captured (act : Run α) : Run (Except Stop α) := fun m =>
  let (r, m) := act m
  (.ok r, m)

/-- The end of a process that would never end. -/
def exhausted : Run α :=
  throw (.ended (.signal 9))

def changeProcess (f : Process → Process) : Run Unit :=
  modify fun m => { m with process := f m.process }

def changeSystem (f : System → System) : Run Unit :=
  modify fun m => { m with system := f m.system }

def setStatus (status : Nat) : Run Unit :=
  changeProcess ({ · with status })

/-! ### Writing -/

/-- The number of the signal that comes to a process when nobody reads what it writes. -/
def brokenPipe : Nat := 13

/-- Write to an endpoint; whether that went well. -/
def writeTo (e : Endpoint) (text : Octets) : Run Bool := do
  if text.isEmpty then return true
  let m ← get
  let (w, system) := m.system.write e text
  set { m with system }
  match w with
  | .done => return true
  | .refused => return false
  | .broken =>
      let p := m.process
      if p.ignores brokenPipe then return false
      else if (p.trap? brokenPipe).isSome then
        changeProcess fun p => { p with pending := p.pending ++ [brokenPipe] }
        return false
      else throw (.ended (.signal brokenPipe))

/-- Write to a descriptor; whether that went well. -/
def write (descriptor : Nat) (text : Octets) : Run Bool := do
  match (← process).endpoint? descriptor with
  | some e => writeTo e text
  | none => return text.isEmpty

/-- Write to the error output, whatever comes of it. -/
def complain (text : Octets) : Run Unit := do
  let _ ← write 2 text

/-- Print a text when the running builtin ends. -/
def print (text : Octets) : Run Unit :=
  changeProcess fun p => { p with unwritten := text :: p.unwritten }

/-- Write what was printed; whether that went well. -/
def flush : Run Bool := do
  let text := (← process).unwritten.reverse.flatten
  changeProcess ({ · with unwritten := [] })
  write 1 text

/-! ### Messages -/

/-- Report what is wrong, after the name of the shell, the line and the source. -/
def report (message : Octets) : Run Unit := do
  let p ← process
  let source := if p.source.isEmpty then [] else p.source ++ ": ".toList
  complain (p.title ++ ": ".toList ++ Octets.ofNat p.line ++ ": ".toList ++ source ++ message ++
    ['\n'])

/-- Report what is wrong and give the command up. -/
def fail (message : Octets) : Run α := do
  report message
  let _ ← flush
  setStatus 2
  throw .fault

def illegalNumber (w : Octets) : Run α :=
  fail ("Illegal number: ".toList ++ w)

/-- The number that an operand is to be. -/
def countOperand (w : Octets) : Run Nat :=
  match Octets.count? w with
  | some n => return n
  | none => illegalNumber w

/-! ### Variables -/

/-- What a new value of a variable brings with it. -/
def heedValue (name value : Octets) : Run Unit := do
  match String.ofList name with
  | "PATH" => changeProcess ({ · with located := [] })
  | "OPTIND" =>
      let n ← countOperand value
      changeProcess (·.restartOptions (max n 1))
  | _ => return

/-- Give a variable a value, and mark it if that is asked for. -/
def assign (name value : Octets) (exported : Bool) : Run Unit := do
  let p ← process
  let v := p.binding name
  if v.readOnly then fail (name ++ ": is read only".toList)
  heedValue name value
  let exported := exported || v.exported || p.isOn 'a'
  changeProcess (·.setVariable name { v with value? := some value, exported })

/-- Take the value of a variable away, and its marks unless it is fixed. -/
def unset (name : Octets) : Run Unit := do
  let p ← process
  let v := p.binding name
  if v.readOnly then fail (name ++ ": is read only".toList)
  heedValue name []
  if v.isFixed then changeProcess (·.setVariable name { v with value? := none })
  else changeProcess (·.removeVariable name)

/-- Keep a variable as it is, to be put back with the innermost frame. -/
def keepForFrame (name : Octets) : Run Unit :=
  changeProcess fun p =>
    match p.frames with
    | top :: below =>
        let before? := p.bindings.get? (key name)
        { p with frames := (.binding name before? :: top) :: below }.setVariable name
          { before?.getD {} with isFixed := true }
    | [] => p

/-- Put one thing back. -/
def Saved.restore : Saved → Process → Process
  | .binding name before?, p =>
      let p := if name = "OPTIND".toList then
          p.restartOptions (max (((before?.bind (·.value?)).bind Octets.count?).getD 1) 1)
        else p
      let p := if name = "PATH".toList then { p with located := [] } else p
      match before? with
      | some v => p.setVariable name v
      | none => p.removeVariable name
  | .options before, p => { p with options := before }

/-- Open a frame. -/
def openFrame : Run Unit :=
  changeProcess fun p => { p with frames := [] :: p.frames }

/-- Close all frames but so many, and put back what they kept. -/
def closeFrames (count : Nat) : Run Unit :=
  changeProcess fun p =>
    let (inner, frames) := p.frames.splitAt (p.frames.length - count)
    inner.flatten.foldl (fun p s => s.restore p) { p with frames }

end NetHooks.Shell
