import NetHooks.Shell.Builtin.Control
import NetHooks.Shell.Builtin.Directory
import NetHooks.Shell.Builtin.Limits
import NetHooks.Shell.Builtin.Names
import NetHooks.Shell.Builtin.Options
import NetHooks.Shell.Builtin.Printing
import NetHooks.Shell.Builtin.Reading
import NetHooks.Shell.Builtin.Signals
import NetHooks.Shell.Builtin.Variables

/-!
# The builtins by their names

All of them but those that run other commands.
-/
namespace NetHooks.Shell.Builtin

def ofName? (name : Octets) : Option Builtin :=
  match String.ofList name with
  | ":" | "true" => some fun _ => return 0
  | "false" => some fun _ => return 1
  | "alias" => some aliases
  | "bg" | "fg" => some resumeJob
  | "break" => some (leaveLoops .breakOut)
  | "cd" | "chdir" => some changeDirectory
  | "command" => some command
  | "continue" => some (leaveLoops .resume)
  | "echo" => some echo
  | "exit" => some exit
  | "export" => some markExported
  | "getopts" => some getOption
  | "hash" => some remember
  | "jobs" => some jobs
  | "kill" => some kill
  | "local" => some makeLocal
  | "printf" => some printf
  | "pwd" => some printDirectory
  | "read" => some read
  | "readonly" => some markReadOnly
  | "return" => some giveBack
  | "set" => some set
  | "shift" => some shift
  | "test" => some condition
  | "[" => some bracket
  | "times" => some times
  | "trap" => some trap
  | "type" => some type
  | "ulimit" => some ulimit
  | "umask" => some umask
  | "unalias" => some removeAliases
  | "unset" => some unmake
  | _ => none

end NetHooks.Shell.Builtin
