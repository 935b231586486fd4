import JackTokens.Program

/-!
# The executable

The program works on a value that stands for the files, so that a run is a function. This module takes
that value from the disk, as far as the run can ask for it, and puts the changes back. It decides
nothing else.
-/

namespace JackTokens.Disk

/-- The path of a location. -/
def pathOf (location : Location) : String := "/" ++ String.intercalate "/" location

/-- Notes what stands at a location. -/
def look (tree : FileTree) (location : Location) : IO FileTree := do
  if (tree.entry? location).isSome then return tree
  let path := (← IO.currentDir) / pathOf location
  if ← path.isDir then
    return { tree with entries := (location, .directory) :: tree.entries }
  if ← path.pathExists then
    let entries := (location, .file tree.slots.size) :: tree.entries
    try
      let bytes ← IO.FS.readBinFile path
      return { tree with entries := entries, slots := tree.slots.push bytes.toList }
    catch _ =>
      return { tree with
        entries := entries, slots := tree.slots.push [], denied := location :: tree.denied }
  return tree

/-- Notes what stands on the way of a path, and returns where it leads. -/
def follow (tree : FileTree) (path : String) : IO (FileTree × Location) := do
  let mut tree := tree
  let mut location := tree.start path
  for name in Path.names path do
    if name = ".." then location := location.dropLast
    else if name ≠ "." then
      location := location ++ [name]
      tree ← look tree location
  return (tree, location)

/-- Notes what stands in a directory. -/
def list (tree : FileTree) (location : Location) : IO FileTree := do
  let path := (← IO.currentDir) / pathOf location
  if ← path.isDir then
    try
      let mut tree := tree
      for entry in ← path.readDir do
        tree ← look tree (location ++ [entry.fileName])
      return tree
    catch _ => return { tree with denied := location :: tree.denied }
  return tree

/-- The empty tree around the working directory. -/
def workplace : IO FileTree := do
  let location := Path.names (← IO.currentDir).toString
  let mut tree : FileTree := { workingDirectory := location }
  for n in List.range location.length do
    tree ← look tree (location.take (n + 1))
  return tree

/-- Notes all that an invocation can ask for. -/
def survey (surroundings : Surroundings) (invocation : CommandLine.Invocation) : IO FileTree := do
  let mut tree ← workplace
  for path in invocation.configuration.elim (Settings.places surroundings) ([·]) do
    tree := (← follow tree path).1
  match invocation.request with
  | .tokenize request =>
    let (found, location) ← follow tree request.path
    list found location
  | .init request => return (← follow tree (Path.join (request.target tree) Settings.fileName)).1

/-- Puts the changes between two trees on the disk. What is new stands behind what was there before,
directories before what they hold. -/
def update (before after : FileTree) : IO Unit := do
  for (location, entry) in after.entries do
    match entry with
    | .directory =>
      if (before.entry? location).isNone then IO.FS.createDirAll (pathOf location)
    | .file slot =>
      let same := match before.entry? location with
        | some (.file old) => before.bytes old == after.bytes slot
        | _ => false
      unless same do
        IO.FS.writeBinFile (pathOf location) ⟨(after.bytes slot).toArray⟩

/-- What surrounds the process. -/
def world : IO World := do
  let home ← IO.getEnv "HOME"
  let configuration := (← IO.getEnv "XDG_CONFIG_HOME").filter Path.isAbsolute
  return {
    environment :=
      { verbose := ← IO.getEnv "JACKT_VERBOSE"
        configuration := ← IO.getEnv "JACKT_CONFIG"
        noColor := ← IO.getEnv "JACKT_NO_COLOR" }
    surroundings :=
      { home := home
        configuration := configuration <|> home.map (Path.join · ".config") } }

/-- The files a run can ask for; none if the arguments ask for none. -/
def files (world : World) (arguments : List String) : IO FileTree :=
  match CommandLine.parse world.environment arguments with
  | .ok invocation => survey world.surroundings invocation
  | .error _ => return {}

/-- Prints what a run has printed and told. -/
def report (done : Completion) : IO Unit := do
  IO.print done.output
  for line in Event.printFrom done.level done.events do
    IO.eprintln line
  match done.ending with
  | .success => return
  | .failure cause => IO.eprintln ("Error: " ++ cause.message)
  | .misuse => IO.eprint Program.usage

end JackTokens.Disk

open JackTokens in
/-- Runs the program on the arguments of the process. -/
def main (arguments : List String) : IO UInt32 := do
  let world ← Disk.world
  let before ← Disk.files world arguments
  let done := Program.run world before arguments
  try
    Disk.update before done.tree
  catch cause =>
    IO.eprintln ("Error: IO error: " ++ toString cause)
    return 1
  Disk.report done
  return UInt32.ofNat done.ending.status
