import NetHooks.Activation.Selection
import NetHooks.Activation.Session
import NetHooks.Config.Compile
import NetHooks.Settings.Basic
import NetHooks.Source.Library
import NetHooks.Store.File
import NetHooks.Terminal
import NetHooks.World

/-!
# Conclusions

What a request of the command line comes to, and the failures that end one. A failure is
told as a chain of causes, each the cause of the one before.
-/
namespace NetHooks

inductive Failure where
  | unknownAction (action : String)
  | badContext (cause : ContextError)
  | badConfig (path : String) (cause : SourceError)
  | noTargets
  | unknownList (name : String)
  | badStore (cause : StoreError)
  deriving DecidableEq, Repr

/-- The names of the actions, as they are listed. -/
def actionNames : List String := ["up", "down", "list", "query"]

namespace Failure

/-- The texts of a failure and of the causes under it. -/
def chain : Failure → List String
  | unknownAction action =>
      ["Unknown action '" ++ action ++ "'. Expected one of: " ++ ", ".intercalate actionNames]
  | badContext e => e.message :: e.cause?.toList
  | badConfig path e =>
      ("Invalid configuration in '" ++ path ++ "'") :: e.message :: e.cause?.toList
  | noTargets => ["No targets given. Name interfaces or groups, or use --allow NAME."]
  | unknownList name => [Selection.unknownListMessage name]
  | badStore e => [e.message, e.cause.message]

def message (f : Failure) : String :=
  ": ".intercalate f.chain

end Failure

/-- What is asked for, in its surroundings. -/
structure Request where
  context : Context
  terminal : Terminal
  targets : List String
  allow? : Option String

/-- What came of a request. -/
structure Conclusion where
  failure : Option Failure
  log : List LogEntry
  /-- What was asked of hooks. -/
  calls : List Call
  world : World

namespace Conclusion

def failed (f : Failure) (log : List LogEntry) (w : World) : Conclusion :=
  ⟨some f, log, [], w⟩

def done (log : List LogEntry) (w : World) : Conclusion :=
  ⟨none, log, [], w⟩

end Conclusion

namespace Request

/-- The configuration of the definition file. -/
def readConfig (r : Request) (tree : FileTree) : Except Failure Config :=
  (do Config.compile (← Forest.parseFile tree.library r.context.configFile)).mapError
    (.badConfig r.context.configFile)

/-- The targets that the allow-list lets through. -/
def select (r : Request) (config : Config) : Except Failure Selection :=
  (config.select r.targets r.allow?).mapError .unknownList

/-- A warning as it is shown. -/
def warning (r : Request) (text : String) : String :=
  r.terminal.paint .yellow "warning:" ++ " " ++ text

end Request

end NetHooks
