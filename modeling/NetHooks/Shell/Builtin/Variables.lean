import NetHooks.Shell.Builtin.Basic

/-!
# Builtins that mark and unmake variables
-/
namespace NetHooks.Shell.Builtin

/-- The name in front of an equals sign, and the value behind it. -/
def nameAndValue (w : Octets) : Octets × Option Octets :=
  (w.takeWhile (· != '='), (w.dropWhile (· != '=')).tail?)

/-- List the variables of a mark as commands that set it. -/
def listMarked (title : String) (isMarked : Variable → Bool) : Run Unit := do
  (← process).bindings.entries.forM fun (name, v) => do
    if isMarked v then
      let value := match v.value? with
        | some value => '=' :: singleQuoted value
        | none => []
      printLine ((title ++ " " ++ name).toList ++ value)

/-- Mark each named variable, and give it a value where there is one. -/
def mark (title : String) (isMarked : Variable → Bool) (change : Variable → Variable) :
    Builtin := fun ws => do
  let ws ← match ws with
    | ('-' :: 'p' :: _) :: _ => pure []
    | _ => operands ws
  if ws.isEmpty then listMarked title isMarked
  ws.forM fun w => do
    let (name, value?) := nameAndValue w
    if !isName name then badName name
    value?.forM fun value => assign name value false
    changeProcess fun p => p.setVariable name (change (p.binding name))
  return 0

def markExported : Builtin :=
  mark "export" (·.exported) ({ · with exported := true })

def markReadOnly : Builtin :=
  mark "readonly" (·.readOnly) ({ · with readOnly := true })

/-- Unmake variables or functions, as the last option says. -/
def unmake : Builtin := fun ws => do
  let (letters, ws) ← switches "vf" ws
  ws.forM fun w => do
    if letters.getLast? == some 'f' then
      changeProcess fun p => { p with functions := p.functions.erase (key w) }
    else
      let (name, _) := nameAndValue w
      if !isName name then badName name
      unset name
  return 0

/-- Keep variables or the options to be put back at the end of the function. -/
def makeLocal : Builtin := fun ws => do
  if (← process).frames.isEmpty then fail "not in a function".toList
  ws.forM fun w => do
    if w = ['-'] then
      changeProcess fun p =>
        match p.frames with
        | top :: below => { p with frames := (.options p.options :: top) :: below }
        | [] => p
    else
      let (name, value?) := nameAndValue w
      if !isName name then badName name
      keepForFrame name
      value?.forM fun value => assign name value false
  return 0

/-! ### Options of a script -/

/-- Whether an option is known by its letter, and whether it takes an argument then. -/
def knownOption? (c : Char) : Octets → Option Bool
  | [] => none
  | d :: rest =>
      if d = c then some (rest.head? == some ':')
      else match rest with
        | ':' :: rest => knownOption? c rest
        | rest => knownOption? c rest

/-- What one look for an option finds. -/
structure OptionFound where
  letter : Char := '?'
  /-- The index of the word to look at next, and how far to look into the one before it. -/
  index : Nat
  offset? : Option Nat := none
  argument? : Option Octets := none
  complaint : Octets := []
  /-- There are no more options. -/
  atEnd : Bool := false

/-- Look for the next option in words, from an index and an offset on. -/
def nextOption (known : Octets) (ws : List Octets) (index : Nat) (offset? : Option Nat) :
    OptionFound :=
  let word := fun i => if i = 0 then none else ws[i - 1]?
  let left := match offset?, word (index - 1) with
    | some n, some w => w.drop n
    | _, _ => []
  match left with
  | c :: rest => found index (index - 1) c rest
  | [] =>
      match word index with
      | some ['-', '-'] => { index := index + 1, atEnd := true }
      | some ('-' :: c :: rest) => found (index + 1) index c rest
      | _ => { index, atEnd := true }
where
  /-- The option of a letter, with what is left of its word. -/
  found (next current : Nat) (c : Char) (rest : Octets) : OptionFound :=
    let quiet := known.head? == some ':'
    let offset := ((if current = 0 then none else ws[current - 1]?).getD []).length - rest.length
    match knownOption? c known with
    | none =>
        if quiet then { index := next, offset? := some offset, argument? := some [c] }
        else
          { index := next
            offset? := some offset
            complaint := "Illegal option -".toList ++ [c, '\n'] }
    | some false =>
        { letter := c, index := next, offset? := some offset, argument? := some [] }
    | some true =>
        if !rest.isEmpty then { letter := c, index := next, argument? := some rest }
        else match ws[next - 1]? with
          | some argument => { letter := c, index := next + 1, argument? := some argument }
          | none =>
              if quiet then { letter := ':', index := next, argument? := some [c] }
              else
                { index := next
                  complaint := "No arg for -".toList ++ c :: " option\n".toList }

def getOption : Builtin := fun ws => do
  match ws with
  | known :: name :: words =>
      let p ← process
      let words := if words.isEmpty then p.parameters else words
      let isBehind := words.length + 1 < p.optionIndex
      let (index, offset?) := if isBehind then (1, none) else (p.optionIndex, p.optionOffset?)
      changeProcess (·.restartOptions 1)
      let f := nextOption known words index offset?
      complain f.complaint
      match f.argument? with
      | some argument => assign "OPTARG".toList argument false
      | none => if !f.atEnd then unset "OPTARG".toList
      assign "OPTIND".toList (Octets.ofNat f.index) false
      if !isName name then badName name
      assign name [f.letter] false
      changeProcess ({ · with optionIndex := f.index, optionOffset? := f.offset? })
      return if f.atEnd then 1 else 0
  | _ => fail "Usage: getopts optstring var [arg...]".toList

end NetHooks.Shell.Builtin
