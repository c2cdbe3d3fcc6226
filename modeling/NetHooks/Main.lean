import NetHooks.CommandLine.Action

/-!
# The command

The outer layer: the files that a run can see are read into a tree, the run is carried out
on it, and what it changed and printed is written out.
-/
namespace NetHooks.Outer

/-- Files above this size are left alone. -/
def sizeLimit : UInt64 := 1048576

/-- A file that begins as a script is taken for one that may be executed. -/
def entryOf (content : ByteArray) : Entry :=
  let bytes := content.toList
  .file bytes (if bytes.take 2 = [0x23, 0x21] then 0o755 else 0o644)

def placeOf (path : String) : Place :=
  (Path.names path).filter (· != "")

/-- Add a directory with those above it. -/
def addDirectories (t : FileTree) (p : Place) : FileTree :=
  (List.range p.length).foldl (fun t n => t.put (p.take (n + 1)) .directory) t

/-- Add what stands at a path, and so many levels under it. -/
partial def addPath (depth : Nat) (t : FileTree) (path : String) : IO FileTree := do
  try
    let real ← IO.FS.realPath path
    let info ← real.metadata
    let place := placeOf path
    match info.type with
    | .dir =>
        let t := addDirectories t place
        if depth = 0 then return t
        (← real.readDir).toList.foldlM
          (fun t e => addPath (depth - 1) t (Path.join path e.fileName)) t
    | .file =>
        if info.byteSize ≤ sizeLimit then
          return (addDirectories t place.dropLast).put place (entryOf (← IO.FS.readBinFile real))
        else return t
    | _ => return t
  catch _ => return t

/-- The path of the directory that holds a path. -/
def folderOf (here path : String) : String :=
  let absolute := Path.join here path
  (Path.parent? absolute).getD absolute

/-- A tree with nothing but the shell and the sink. -/
def bareTree (workplace : Place) : FileTree :=
  addDirectories ⟨[(["bin"], .directory), (["bin", "sh"], .file [] 0o755), (["dev"], .directory),
    (["dev", "null"], .sink)], workplace⟩ workplace

/-- The variables of this process. -/
def ownVariables : IO Variables := do
  let bytes := (← IO.FS.readBinFile "/proc/self/environ").toList
  let entries := (Text.pieces '\x00' (Text.decodeLossy bytes)).filterMap fun e =>
    match e.dropWhile (· != '=') with
    | _ :: value => some (String.ofList (e.takeWhile (· != '=')), String.ofList value)
    | [] => none
  return Catalog.ofList entries

/-- Colours are shown on a terminal unless the variables say otherwise. -/
def ownTerminal (vars : Variables) : IO Terminal := do
  let forced := match vars.get? "CLICOLOR_FORCE" with
    | some v => v != "0"
    | none => false
  if forced then return ⟨true⟩
  else if vars.contains "NO_COLOR" then return ⟨false⟩
  else return ⟨(vars.get? "CLICOLOR") != some "0" && (← (← IO.getStdout).isTty)⟩

/-- Write out what the run changed. -/
def writeChanges (before after : FileTree) : IO Unit :=
  after.entries.reverse.forM fun (place, e) => do
    if before.find? place != some e then
      let path := Place.toPath place
      match e with
      | .file bytes _ =>
          IO.FS.createDirAll (Place.toPath place.dropLast)
          IO.FS.writeBinFile path ⟨bytes.toArray⟩
      | .directory => IO.FS.createDirAll path
      | _ => pure ()

def emit (stream : IO.FS.Stream) (bytes : Bytes) : IO Unit := do
  stream.write ⟨bytes.toArray⟩
  stream.flush

/-- The levels of directories that are read. -/
def depthLimit : Nat := 3

/-- The tree for a run with the arguments. -/
def treeFor (vars : Variables) (here : String) (a : Arguments) : IO FileTree := do
  let bare := bareTree (placeOf here)
  let given := (a.settings?.bind fun s => (expandPath vars s).toOption).getD Settings.defaultFile
  let t ← addPath 0 bare (Path.join here given)
  match a.context vars t with
  | .error _ => return t
  | .ok c =>
      [here, folderOf here c.configFile, folderOf here c.stateFile,
        Path.join here c.hookRoot].foldlM (addPath depthLimit) t

/-- Run with the arguments and give the code to exit with. -/
def run (args : List String) : IO UInt32 := do
  let stdout ← IO.getStdout
  let stderr ← IO.getStderr
  match Arguments.parse args with
  | .error e =>
      if e.isRequest then
        stdout.putStrLn e.message
        return 0
      else
        stderr.putStrLn ("error: " ++ e.message)
        return 2
  | .ok a =>
      let vars ← ownVariables
      let terminal ← ownTerminal vars
      let here := (← IO.currentDir).toString
      let tree ← treeFor vars here a
      let c := a.run vars terminal (.ofTree tree)
      writeChanges tree c.world.tree
      emit stdout c.world.stdout
      emit stderr c.world.stderr
      match c.failure with
      | none => return 0
      | some f =>
          stderr.putStrLn ("\n" ++ terminal.paint .boldRed "Error" ++ ": " ++ f.message)
          return 1

end NetHooks.Outer

def main (args : List String) : IO UInt32 :=
  NetHooks.Outer.run args
