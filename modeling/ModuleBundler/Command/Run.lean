import ModuleBundler.Bundle
import ModuleBundler.Command.Failure
import ModuleBundler.Command.Usage
import ModuleBundler.Graph.Emit
import ModuleBundler.Report.Listing
import ModuleBundler.Store.OnDisk
import ModuleBundler.Syntax.Program

/-!
# Runs of the command

A run completes its settings from the settings file, collects the bundle, writes it to a file if it
is asked to, and reports. The first step that fails ends it. The disk goes through the steps that
could change it, and comes out of a run as the last of them left it, whether that step failed or
not. The report comes last, so that nothing is printed before all else is done.

A run reads files with the engine that is in scope, which is `Program.engine` where no other one is
given.
-/

namespace ModuleBundler.Command

/-- What a run finds around it. -/
structure Surroundings where
  /-- The working directory. -/
  cwd : Place
  /-- Whether output is colored. -/
  coloring : Coloring := .plain
  /-- How long collecting and writing took, in milliseconds. -/
  elapsed : Nat := 0
  deriving DecidableEq, Repr

/-- What a run leaves behind, apart from the disk. -/
structure Outcome where
  /-- The exit status. -/
  code : Nat
  /-- What was printed. -/
  stdout : String := ""
  /-- What was printed for errors. -/
  stderr : String := ""
  deriving DecidableEq, Repr

/-- A path as it is seen from a directory. -/
def pathFrom (cwd : Place) (text : String) : String :=
  if text.toList.head? = some '/' then text
  else if cwd.isEmpty then "/" ++ text
  else Place.text cwd ++ "/" ++ text

/-- The graph of the bundle that settings ask for, and the disk as it then stands. -/
def collect [Engine] (settings : Settings) (cwd : Place) (disk : Disk) :
    Except Failure Graph × Disk :=
  match Path.ofOs (Utf8.encode (pathFrom cwd settings.entry)) with
  | .error cause => (.error (.entry cause), disk)
  | .ok entry =>
    match bundle settings.packages settings.followTypes entry (⟨disk, cwd, {}⟩ : DiskStore) with
    | none => (.error (.tooDeep settings.entry), disk)
    | some (.error cause, store) => (.error (.bundle settings.entry cause), store.disk)
    | some (.ok g, store) => (.ok g, store.disk)

/-- Puts the bundle in the file that settings ask for, if they do. -/
def deliver (settings : Settings) (cwd : Place) (g : Graph) (disk : Disk) :
    Except Failure Unit × Disk :=
  match settings.output with
  | none => (.ok (), disk)
  | some output =>
    match disk.save cwd output (g.emit settings.bundleOrder) with
    | .ok written => (.ok (), written)
    | .error cause => (.error (.create output cause), disk)

/-- The line that ends a listing. -/
def closing (view : Listing.View) (elapsed : Nat) (g : Graph) : String :=
  let mark := view.paint .brightBlue "●"
  s!"\n{mark} Finished in {view.count .cyan elapsed}ms on {view.count .cyan g.size} files.\n"

/-- The report on a bundle. -/
def report (settings : Settings) (around : Surroundings) (g : Graph) : String :=
  match settings.format with
  | .json => (Summary.ofGraph g settings.bundleOrder).print
  | .text =>
    let view : Listing.View := ⟨around.coloring, some (Place.path around.cwd)⟩
    Listing.print view g settings.bundleOrder ++ closing view around.elapsed g

/-- A run with the settings that the arguments ask for: the report or a failure, and the disk as it
then stands. -/
def attempt [Engine] (given : Settings) (around : Surroundings) (disk : Disk) :
    Except Failure String × Disk :=
  match given.complete disk around.cwd with
  | .error cause => (.error (.config cause), disk)
  | .ok settings =>
    match collect settings around.cwd disk with
    | (.error failure, disk) => (.error failure, disk)
    | (.ok g, disk) =>
      match deliver settings around.cwd g disk with
      | (.error failure, disk) => (.error failure, disk)
      | (.ok _, disk) => (.ok (report settings around g), disk)

/-- A run of the task. -/
def runBundle [Engine] (given : Settings) (around : Surroundings) (disk : Disk) : Outcome × Disk :=
  match attempt given around disk with
  | (.ok report, disk) => (⟨0, report, ""⟩, disk)
  | (.error failure, disk) => (⟨1, "", failure.print⟩, disk)

/-- A run of the command with the given arguments. -/
def run [Engine] (arguments : List String) (around : Surroundings) (disk : Disk) : Outcome × Disk :=
  match Usage.read arguments with
  | .error fault => (⟨2, "", fault.message⟩, disk)
  | .ok .help => (⟨0, Usage.help, ""⟩, disk)
  | .ok .bundleHelp => (⟨0, Usage.bundleHelp, ""⟩, disk)
  | .ok (.bundle settings) => runBundle settings around disk

end ModuleBundler.Command
