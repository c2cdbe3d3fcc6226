/-!
# Blank characters

The characters that count as white space everywhere a line, a word or a record is
trimmed: the 25 characters with the property White_Space.
-/
namespace NetHooks.Text

/-- A character with the property White_Space. -/
def isBlank (c : Char) : Bool :=
  let n := c.toNat
  (9 ≤ n && n ≤ 13) || n == 0x20 || n == 0x85 || n == 0xA0 || n == 0x1680 ||
    (0x2000 ≤ n && n ≤ 0x200A) || n == 0x2028 || n == 0x2029 || n == 0x202F ||
    n == 0x205F || n == 0x3000

def trimStart (s : List Char) : List Char :=
  s.dropWhile isBlank

def trimEnd (s : List Char) : List Char :=
  (s.reverse.dropWhile isBlank).reverse

def trim (s : List Char) : List Char :=
  trimEnd (trimStart s)

/-- The first run of characters that are not blank. -/
def firstToken (s : List Char) : List Char :=
  (trimStart s).takeWhile (fun c => !isBlank c)

/-- What follows the first token, without the blanks before it. -/
def afterFirstToken (s : List Char) : List Char :=
  trimStart ((trimStart s).dropWhile (fun c => !isBlank c))

end NetHooks.Text
