import NetHooks.Shell.Builtin.Basic

/-!
# The mask of rights, and the limits of a process
-/
namespace NetHooks.Shell.Builtin

/-- A number in octal digits, at least so many. -/
def octalText (width n : Nat) : Octets :=
  let digits := Nat.toDigits 8 n
  List.replicate (width - digits.length) '0' ++ digits

/-- The number that octal digits are. -/
def octal? (s : Octets) : Option Nat :=
  s.foldl (fun n? c => n?.bind fun n =>
    if '0' ≤ c ∧ c ≤ '7' then some (n * 8 + (c.toNat - '0'.toNat)) else none) (some 0)

/-- All rights of a file. -/
def allRights : Nat := 0o777

/-- The letters of rights, as a change names them. -/
def rightsText (rights : Nat) : Octets :=
  [(4, 'r'), (2, 'w'), (1, 'x')].filterMap fun (n, c) => if rights &&& n != 0 then some c else none

/-- The rights that the mask leaves, in letters. -/
def symbolicMask (mask : Nat) : Octets :=
  let left := allRights - (mask &&& allRights)
  "u=".toList ++ rightsText (left / 64 % 8) ++ ",g=".toList ++ rightsText (left / 8 % 8) ++
    ",o=".toList ++ rightsText (left % 8)

/-- Whom a change of rights is for. -/
def ownersOf : Char → Option Nat
  | 'a' => some 0o111
  | 'u' => some 0o100
  | 'g' => some 0o010
  | 'o' => some 0o001
  | _ => none

/-- The rights that a letter of a change names, where others may come from those there were. -/
def rightsOf (before : Nat) : Char → Option Nat
  | 'r' => some 4
  | 'w' => some 2
  | 'x' => some 1
  | 'u' => some (before / 64)
  | 'g' => some (before / 8)
  | 'o' => some before
  | 'X' => some (if before &&& 0o111 != 0 then 1 else 0)
  | 's' => some 0
  | _ => none

/-- One change of rights: `-` takes some away, `=` gives no others, `+` gives more. -/
def changeRights (owners rights : Nat) (sign : Char) (now : Nat) : Nat :=
  let chosen := owners * (rights % 8)
  if sign = '-' then now &&& (allRights - chosen)
  else if sign = '=' then chosen ||| (now &&& (allRights - owners * 7))
  else now ||| chosen

/-- The rights after the changes that a text describes. The owners that were named hold up to
the next comma. -/
def changedRights? (before : Nat) : Nat → Nat → Nat → Octets → Option Nat
  | _, _, now, [] => some now
  | 0, _, _, _ => none
  | fuel + 1, owners, now, s =>
      let named := (s.takeWhile fun c => (ownersOf c).isSome).filterMap ownersOf
      let owners := named.foldl (· ||| ·) owners
      let owners := if owners = 0 then 0o111 else owners
      match s.drop named.length with
      | sign :: rest =>
          if !"=+-".toList.contains sign then none
          else
            let rights := (rest.takeWhile fun c => (rightsOf before c).isSome).filterMap
              (rightsOf before)
            let now := changeRights owners (rights.foldl (· ||| ·) 0) sign now
            match rest.drop rights.length with
            | [] => some now
            | c :: rest =>
                if c = ',' then changedRights? before fuel 0 now rest
                else if "=+-".toList.contains c then
                  changedRights? before fuel owners now (c :: rest)
                else none
      | [] => none

def umask : Builtin := fun ws => do
  let (letters, ws) ← switches "S" ws
  let mask := (← process).mask
  match ws with
  | [] => printLine (if letters.isEmpty then octalText 4 mask else symbolicMask mask)
  | w :: _ =>
      if (w.head?.any Char.isDigit) then
        match octal? w with
        | some n => changeProcess ({ · with mask := n &&& allRights })
        | none => illegalNumber w
      else
        match changedRights? (allRights - mask) (w.length + 1) 0 (allRights - mask) w with
        | some rights => changeProcess ({ · with mask := allRights - (rights &&& allRights) })
        | none => fail ("Illegal mode: ".toList ++ w)
  return 0

/-- Nothing is limited, and limits are not kept. -/
def ulimit : Builtin := fun ws => do
  let (letters, ws) ← switches "HSatfdscmlpnvwr" ws
  match ws with
  | [] =>
      printLine (if letters.getLast? == some 'c' then ['0'] else "unlimited".toList)
  | w :: more =>
      if !more.isEmpty then fail "too many arguments".toList
      if w ≠ "unlimited".toList && (Octets.number? w).isNone then fail "bad number".toList
  return 0

/-- No time passes. -/
def times : Builtin := fun _ => do
  printLine "0m0.000000s 0m0.000000s".toList
  printLine "0m0.000000s 0m0.000000s".toList
  return 0

end NetHooks.Shell.Builtin
