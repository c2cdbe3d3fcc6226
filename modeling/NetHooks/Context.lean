/-!
# Run contexts

What a run knows of its surroundings: where its files are, and how it is to act.
-/
namespace NetHooks

structure Context where
  configFile : String := "/etc/ifhook/interfaces"
  stateFile : String := "/run/ifhook/state"
  /-- The directory with the hook directories. -/
  hookRoot : String := "/usr/libexec/ifhook"
  verbose : Bool := false
  /-- Print the environment of each hook before it. -/
  dumpEnvironment : Bool := false
  /-- Show what would run, and run nothing. -/
  noAct : Bool := false
  /-- Where hooks look for programs. -/
  searchPath : String := "/usr/sbin:/usr/bin:/sbin:/bin"
  deriving DecidableEq, Repr

end NetHooks
