import NetHooks.Shell.Process

/-!
# Builtins

A builtin is a function from its operands to its status. Options stand in front of the
operands: letters behind a hyphen, of which some take an argument.
-/
namespace NetHooks.Shell

/-- From the operands to the status. -/
abbrev Builtin := List Octets → Run Nat

namespace Builtin

def badName (name : Octets) : Run α :=
  fail (name ++ ": bad variable name".toList)

def illegalOption (letter : Char) : Run α :=
  fail ("Illegal option -".toList ++ [letter])

/-- The options behind letters of a word and the words after it, and the operands. The letters
that are known come with whether they take an argument. -/
def optionsBehind (known : List (Char × Bool)) :
    Octets → List Octets → Run (List (Char × Octets) × List Octets)
  | [], [] => return ([], [])
  | [], w :: ws =>
      match w with
      | '-' :: c :: letters =>
          if c = '-' && letters.isEmpty then return ([], ws)
          else optionsBehind known (c :: letters) ws
      | _ => return ([], w :: ws)
  | c :: letters, ws => do
      let behind (argument : Octets) (r : List (Char × Octets) × List Octets) :=
        ((c, argument) :: r.1, r.2)
      match known.lookup c with
      | none => illegalOption c
      | some false => return behind [] (← optionsBehind known letters ws)
      | some true =>
          if !letters.isEmpty then return behind letters (← optionsBehind known [] ws)
          else
            match ws with
            | [] => fail ("No arg for -".toList ++ c :: " option".toList)
            | w :: ws => return behind w (← optionsBehind known [] ws)
  termination_by letters ws => (ws.length, letters.length)

/-- The options, and the operands behind them. -/
def options (known : List (Char × Bool)) (ws : List Octets) :
    Run (List (Char × Octets) × List Octets) :=
  optionsBehind known [] ws

/-- The operands where no option is known. -/
def operands (ws : List Octets) : Run (List Octets) := do
  return (← options [] ws).2

/-- The letters of options that take no argument, and the operands behind them. -/
def switches (known : String) (ws : List Octets) : Run (List Char × List Octets) := do
  let (options, operands) ← options (known.toList.map (·, false)) ws
  return (options.map (·.1), operands)

/-- A text in quotes: runs of single quotes between double quotes, all else between single
ones. -/
def singleQuoted (s : Octets) : Octets :=
  let runs := s.splitBy fun a b => (a == '\'') == (b == '\'')
  let first := if (s.headD '\'') = '\'' then "\'\'".toList else []
  first ++ runs.flatMap fun run =>
    let q := if run.head? = some '\'' then '"' else '\''
    q :: run ++ [q]

def printLine (text : Octets) : Run Unit :=
  print (text ++ ['\n'])

end Builtin

end NetHooks.Shell
