import ModuleBundler.Command.Run

/-!
# The command

`ModuleBundler.Command.run` says what a run does, on a disk that is a value. What is left to do here
is to look at the real disk, and to print and write what comes out.

Only what a run can ask for is looked at: the settings file, the entry file, and from every file
that belongs to the bundle the places its requests may lead to. `observe` records what a path meets
on its way, so that the recorded disk answers for that path as the real one does.
-/

namespace ModuleBundler

/-- A canonical path as the operating system writes it, as a place. -/
def placeOf (text : String) : Place :=
  (Path.parse text).segments

/-- Records what stands at a canonical place. -/
def record (disk : Disk) (place : Place) : IO Disk := do
  let real ← IO.FS.realPath place.text
  match (← real.metadata).type with
  | .dir => return disk.put place .directory
  | .file => return disk.put place (.file (← IO.FS.readBinFile real).toList)
  | _ => return disk

/-- Records what steps meet on their way from a place, as far as they lead anywhere. -/
partial def observeSteps (disk : Disk) (place : Place) : List Step → IO Disk
  | [] => return disk
  | .up :: rest => observeSteps disk place.dropLast rest
  | .here :: rest => observeSteps disk place rest
  | .slash :: rest => observeSteps disk place rest
  | .name n :: rest => do
    let next := place ++ [n]
    match disk.entry? next with
    | some (.link target) => observeSteps disk [] (Step.ofText target ++ rest)
    | some _ => observeSteps disk next rest
    | none =>
      try
        let real := (← IO.FS.realPath next.text).toString
        if real = next.text then observeSteps (← record disk next) next rest
        else
          let disk := disk.put next (.link real)
          observeSteps disk [] (Step.ofText real ++ rest)
      catch _ => return disk

/-- Records what a path meets on its way. -/
def observe (disk : Disk) (cwd : Place) (text : String) : IO Disk :=
  observeSteps disk (Step.start cwd text) (Step.ofText text)

/-- The requests of the file at a place that name files from its directory. -/
def relativeRequests (disk : Disk) (place : Place) : List Path :=
  match disk.entry? place with
  | some (.file content) =>
    let file : SourceFile := ⟨place.path, some (.ofContent place.path content)⟩
    match file.references with
    | .ok references => (references.filter Reference.isRelative).map Reference.path
    | .error _ => []
  | _ => []

/-- Records what the files at the given places need, and what those need, and so on. -/
partial def explore (disk : Disk) (seen : List Place) : List Place → IO Disk
  | [] => return disk
  | place :: rest =>
    if seen.contains place then explore disk seen rest
    else do
      let directory := Place.path place.dropLast
      let mut disk := disk
      let mut found := []
      for request in relativeRequests disk place do
        for candidate in request :: Locate.candidates request do
          disk ← observe disk place.dropLast (directory.join candidate).toOsText
        match Locate.locate directory request (⟨disk, [], {}⟩ : DiskStore) with
        | .ok path => found := found ++ [path.segments]
        | .error _ => pure ()
      explore disk (place :: seen) (found ++ rest)

/-- Records what a run of the task can ask for. -/
def snapshot (settings : Settings) (cwd : Place) : IO Disk := do
  let mut disk ← observe {} [] cwd.text
  let default := Place.text (cwd ++ [FileSettings.defaultName])
  for path in [settings.config.getD default, settings.output.getD cwd.text, settings.entry] do
    disk ← observe disk cwd path
  match disk.canonical cwd settings.entry with
  | .ok place => explore disk [] [place]
  | .error _ => return disk

/-- Writes a bundle to the real disk, and tells the exit status of the run. -/
def write (path : String) (outcome : Command.Outcome) (bytes : Bytes) : IO Nat := do
  try
    IO.FS.writeBinFile path ⟨bytes.toArray⟩
    IO.print outcome.stdout
    return outcome.code
  catch e =>
    IO.eprintln s!"Error: Failed to write {path}\n\nCaused by:\n    {e}"
    return 1

end ModuleBundler

open ModuleBundler

/-- Runs the command. -/
def main (arguments : List String) : IO UInt32 := do
  let started ← IO.monoMsNow
  let cwd := placeOf (← IO.FS.realPath ".").toString
  let coloring := Coloring.ofEnvironment (← IO.getEnv "CLICOLOR_FORCE") (← IO.getEnv "NO_COLOR")
    (← IO.getEnv "CLICOLOR") (← (← IO.getStdout).isTty)
  let settings? := match Usage.read arguments with
    | .ok (.bundle settings) => some settings
    | _ => none
  let disk ← match settings? with
    | some settings => snapshot settings cwd
    | none => pure {}
  let around : Command.Surroundings := ⟨cwd, coloring, (← IO.monoMsNow) - started⟩
  let (outcome, written) := Command.run arguments around disk
  IO.eprint outcome.stderr
  match outcome.code, settings?.bind Settings.output with
  | 0, some path =>
    match written.contentAt cwd path with
    | .ok bytes => return (← ModuleBundler.write path outcome bytes).toUInt32
    | .error _ => return 1
  | code, _ =>
    IO.print outcome.stdout
    return code.toUInt32
