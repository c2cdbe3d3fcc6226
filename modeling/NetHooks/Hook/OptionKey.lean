import NetHooks.Text.UpperCase

/-!
# Option keys

The environment key of an option: a prefix and an underscore before the option's name
in upper case, with underscores for hyphens.
-/
namespace NetHooks

def optionKeyChars (option : List Char) : List Char :=
  Text.upper (option.map fun c => if c = '-' then '_' else c)

def optionKey (head option : String) : String :=
  head ++ "_" ++ String.ofList (optionKeyChars option.toList)

/-- The prefix of the keys of an interface's type. -/
def typeHead : String := "IFACE"

/-- The prefix of the keys of a protocol. -/
def protocolHead : String := "PROTO"

end NetHooks
