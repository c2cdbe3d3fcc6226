import NetHooks.Shell.Builtin.Basic

/-!
# Options of the shell

The options are letters that are on or off. They are switched by the builtin `set`, which
sets the parameters as well, and by the words that a shell is started with.
-/
namespace NetHooks.Shell.Builtin

/-- Switch the option of a letter. Only one kind of line editing is on at a time. -/
def switchLetter (on : Bool) (c : Char) : Run Unit := do
  if !optionLetters.contains c then illegalOption c
  changeProcess (·.setOption c on)
  if on && c = 'V' then changeProcess (·.setOption 'E' false)
  if on && c = 'E' then changeProcess (·.setOption 'V' false)

/-- Switch the option of a name. -/
def switchName (on : Bool) (name : Octets) : Run Unit := do
  match optionNames.lookup (String.ofList name) with
  | some c => changeProcess (·.setOption c on)
  | none => fail ("Illegal option -o ".toList ++ name)

/-- List the options, for people or as commands that switch them so. -/
def listOptions (forPeople : Bool) : Run Unit := do
  let p ← process
  if forPeople then
    print ("Current option settings\n".toList ++ optionNames.flatMap fun (name, c) =>
      name.toList ++ List.replicate (16 - name.length) ' ' ++
        (if p.isOn c then "on\n" else "off\n").toList)
  else
    print (optionNames.flatMap fun (name, c) =>
      ("set " ++ (if p.isOn c then "-o " else "+o ") ++ name ++ "\n").toList)

/-- What words of options leave. -/
structure AfterOptions where
  operands : List Octets := []
  /-- The operands are parameters even if there are none. -/
  wasEnded : Bool := false
  /-- The first operand is a script. -/
  hasScript : Bool := false

/-- Switch what the letters of a word and the words after it say. A letter `c` counts only when
a shell starts. -/
def switchWords (atStart : Bool) : Bool → Octets → List Octets → Run AfterOptions
  | _, [], [] => return {}
  | _, [], w :: ws =>
      match w with
      | ['-'] => do
          if !atStart then
            changeProcess (·.setOption 'x' false |>.setOption 'v' false)
          return { operands := ws }
      | ['-', '-'] => return { operands := ws, wasEnded := true }
      | '-' :: letters => switchWords atStart true letters ws
      | '+' :: letters => switchWords atStart false letters ws
      | _ => return { operands := w :: ws }
  | on, c :: letters, ws => do
      if atStart && c = 'c' then
        return { (← switchWords atStart on letters ws) with hasScript := true }
      else if atStart && c = 'l' then switchWords atStart on letters ws
      else if c = 'o' then
        match ws with
        | [] =>
            listOptions on
            switchWords atStart on letters []
        | name :: ws =>
            switchName on name
            switchWords atStart on letters ws
      else
        switchLetter on c
        switchWords atStart on letters ws
  termination_by _ letters ws => (ws.length, letters.length)

/-- There is no terminal to control jobs from. -/
def refuseJobControl : Run Unit := do
  if (← process).isOn 'm' then
    report "can't access tty; job control turned off".toList
    changeProcess (·.setOption 'm' false)

def setParameters (ws : List Octets) : Run Unit :=
  changeProcess fun p => { p with parameters := ws }.restartOptions 1

def listVariables : Run Unit := do
  (← process).bindings.entries.forM fun (name, v) =>
    v.value?.forM fun value => printLine (name.toList ++ '=' :: singleQuoted value)

def set : Builtin := fun ws => do
  if ws.isEmpty then listVariables
  else
    let r ← switchWords false true [] ws
    refuseJobControl
    if r.wasEnded || !r.operands.isEmpty then setParameters r.operands
  return 0

def shift : Builtin := fun ws => do
  let n ← match ws with
    | [] => pure 1
    | w :: _ => countOperand w
  let p ← process
  if p.parameters.length < n then fail "can't shift that many".toList
  setParameters (p.parameters.drop n)
  return 0

end NetHooks.Shell.Builtin
