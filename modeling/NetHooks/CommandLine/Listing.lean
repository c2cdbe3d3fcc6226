import NetHooks.CommandLine.Basic

/-!
# Listing what is up

The recorded instances with their logical names, all of them in order or those that are
asked for in the order of asking.
-/
namespace NetHooks.Request

/-- The instances that are asked for; `none` asks for all. -/
def wanted (r : Request) (tree : FileTree) : Except Failure (Option (List String)) :=
  match r.allow? with
  | some _ => do
      let selection ← r.select (← r.readConfig tree)
      return some (selection.targets.map fun t => (Target.split t).instanceName)
  | none =>
      if r.targets.isEmpty then .ok none
      else .ok (some (r.targets.map fun t => (Target.split t).instanceName))

/-- The recorded entries among the wanted instances. -/
def shownEntries (entries : Entries) : Option (List String) → List (String × String)
  | none => entries.entries
  | some instances => instances.filterMap fun i => (entries.get? i).map (i, ·)

/-- The wanted instances that are not recorded. -/
def inactive (entries : Entries) : Option (List String) → List String
  | none => []
  | some instances => instances.filter fun i => (entries.get? i).isNone

/-- List the recorded instances. -/
def list (r : Request) (w : World) : Conclusion :=
  match Store.load w.tree r.context.stateFile with
  | .error e => .failed (.badStore e) [] w
  | .ok store =>
      match r.wanted w.tree with
      | .error f => .failed f [] w
      | .ok wanted =>
          let shown := (shownEntries store.entries wanted).map fun (i, logical) =>
            r.terminal.paint .cyan i ++ "=" ++ logical
          let notes := (inactive store.entries wanted).map fun i =>
            r.terminal.paint .dim "note:" ++ " '" ++ i ++ "' is not configured"
          let w := shown.foldl World.print w
          .done [] (if r.context.verbose then notes.foldl World.complain w else w)

end NetHooks.Request
