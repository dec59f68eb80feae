import ModuleBundler.Command.Run
import ModuleBundler.Proofs.Bundle.Failure
import ModuleBundler.Proofs.Bundle.Links
import ModuleBundler.Proofs.Path.Os
import ModuleBundler.Syntax.Program

/-!
# Runs that fail

A run writes to the disk once, after its bundle is collected. Until then it opens files, reads them
and closes them again, in the settings file and at every depth of the walk, and none of this changes
the disk (`Command.collect_eq`). So a run that fails before there is a bundle leaves the disk as it
found it, whatever file it was asked to write to, and has printed nothing but its failure
(`Command.run_leavesNoTrace`).

What fails early is told from the disk alone. A bundle fails if its entry does not open, or if any
module that the entry needs cannot be read or has a reference that leads nowhere, however many
modules lie in between (`DiskStore.bundle_fails_iff`); and a call that neither fails early nor asks
for help has collected a bundle first (`Command.failsEarly_or_bundled`).
-/

namespace ModuleBundler

namespace DiskStore

variable {S : DiskStore}

/-- **A bundle on a disk fails at its entry or at a module that the entry needs.** -/
theorem bundle_fails_iff [Engine] (hnames : S.disk.Nameable) (hcwd : S.disk.IsCanonical S.cwd)
    (hfresh : S.handles.Fresh) (packages : Option PackageTable) (followTypes : Bool)
    (entry : Path) :
    (∃ cause S', bundle packages followTypes entry S = some (.error cause, S')) ↔
      (∃ cause, (entryPath entry S).1 = .error cause) ∨
        ∃ start, (entryPath entry S).1 = .ok start ∧
          ∃ path ∈ ((BundleOptions.ofTable packages followTypes).answers S).needed start,
            ¬ ((BundleOptions.ofTable packages followTypes).answers S).Complete path := by
  have hdescribes : ((BundleOptions.ofTable packages followTypes).answers S).Describes
      (.ofTable packages followTypes) fun S' ↦ ∃ n, S' = S.skip n :=
    BundleOptions.describes_answers hfresh
  have hfunctional : ((BundleOptions.ofTable packages followTypes).answers S).Functional :=
    BundleOptions.functional_answers _ S
  constructor
  · rintro ⟨cause, S', hbundle⟩
    rcases collect_eq_error hdescribes (snd_entryPath hfresh entry) hbundle with
      hentry | ⟨start, hstart, hstops⟩
    · exact Or.inl ⟨cause, hentry⟩
    · exact Or.inr ⟨start, hstart, hstops.exists_not_complete hfunctional⟩
  · intro hfails
    obtain ⟨⟨outcome, S'⟩, hbundle⟩ := Option.isSome_iff_exists.1
      (isSome_bundle_of_nameable hnames hcwd hfresh packages followTypes entry)
    rcases outcome with cause | g
    · exact ⟨cause, S', hbundle⟩
    · -- a bundle that is collected has an entry, and is complete at every depth
      obtain ⟨start, hstart, hvisits⟩ :=
        collect_eq_ok hdescribes (snd_entryPath hfresh entry) hbundle
      rcases hfails with ⟨cause, hentry⟩ | ⟨start', hstart', path, hneeded, hnot⟩
      · cases hstart.symm.trans hentry
      · obtain rfl := Except.ok.inj (hstart.symm.trans hstart')
        exact absurd (hvisits.complete hfunctional hneeded) hnot

/-- A file without references makes a bundle by itself. -/
theorem exists_bundle_of_path [Engine] (hnames : S.disk.Nameable) (hcwd : S.disk.IsCanonical S.cwd)
    (hfresh : S.handles.Fresh) {place : Place} (hplace : S.disk.IsCanonical place) {data : Bytes}
    (hdata : S.disk.entry? place = some (.file data))
    (hreferences : Reference.references place.path data
      (Engine.parse (.ofPath place.path) data none) = .ok [])
    (packages : Option PackageTable) (followTypes : Bool) :
    ∃ g S', bundle packages followTypes place.path S = some (.ok g, S') := by
  let P : Project := (BundleOptions.ofTable packages followTypes).answers S
  have hfunctional : P.Functional := BundleOptions.functional_answers _ S
  have hreads : P.reads place.path (.ok (data, [])) :=
    visited_path hfresh hplace hdata hreferences
  have hfile : S.disk.isFile place = true := by
    rw [Disk.isFile, hdata]
    rfl
  have hclosed : P.Closed place.path {place.path} := by
    refine ⟨rfl, ?_⟩
    rintro _ rfl path ⟨content, references, reference, hreads', hmem, -⟩
    obtain ⟨-, rfl⟩ := Prod.mk.inj (Except.ok.inj (hfunctional.reads hreads' hreads))
    exact absurd hmem List.not_mem_nil
  obtain ⟨⟨cause | g, S'⟩, hbundle⟩ := Option.isSome_iff_exists.1
    (isSome_bundle_of_nameable hnames hcwd hfresh packages followTypes place.path)
  · have hfails := (bundle_fails_iff hnames hcwd hfresh packages followTypes place.path).1
      ⟨cause, S', hbundle⟩
    rw [entryPath_path hfresh hplace hfile] at hfails
    rcases hfails with ⟨cause, hcause⟩ | ⟨start, hstart, path, hpath, hnot⟩
    · cases hcause
    · obtain rfl := Except.ok.inj hstart
      obtain rfl : path = place.path := (P.isLeast_needed _).2 hclosed hpath
      exact absurd ⟨data, [], hreads, fun _ hmem ↦ absurd hmem List.not_mem_nil⟩ hnot
  · exact ⟨g, S', hbundle⟩

end DiskStore

namespace Command

variable {arguments : List String} {given settings : Settings} {around : Surroundings}
  {cwd : Place} {disk : Disk} {g : Graph}

/-! ### Collecting -/

/-- The answer that bundling gives to settings, on a disk where nothing is open. -/
def bundleOf [Engine] (settings : Settings) (cwd : Place) (disk : Disk) :
    Option (Except Error Graph) :=
  (bundle settings.packages settings.followTypes (Path.parse (pathFrom cwd settings.entry))
    (⟨disk, cwd, {}⟩ : DiskStore)).map Prod.fst

/-- **Collecting is bundling, and leaves the disk as it is.** The entry always has a path. -/
theorem collect_eq [Engine] (settings : Settings) (cwd : Place) (disk : Disk) :
    collect settings cwd disk =
      (match bundleOf settings cwd disk with
        | none => .error (.tooDeep settings.entry)
        | some (.error cause) => .error (.bundle settings.entry cause)
        | some (.ok g) => .ok g, disk) := by
  have hfresh : ({} : HandleTable Place).Fresh := nofun
  rw [collect, Path.ofOs_encode, bundleOf]
  rcases hbundle : bundle settings.packages settings.followTypes
    (Path.parse (pathFrom cwd settings.entry)) (⟨disk, cwd, {}⟩ : DiskStore) with
    - | ⟨outcome, S'⟩
  · simp only [hbundle, Option.map_none]
  · -- the store that comes back is threaded through all of the walk
    have hdisk : S'.disk = disk := DiskStore.disk_of_bundle hfresh hbundle
    rcases outcome with cause | g <;> simp only [hbundle, Option.map_some, hdisk]

/-! ### Failing early -/

/-- A call fails before there is a bundle: it is refused, or its settings file cannot be used, or
bundling what its settings ask for fails. -/
inductive FailsEarly [Engine] (arguments : List String) (cwd : Place) (disk : Disk) : Prop
  /-- The call is refused. -/
  | refused {fault : Usage.Fault} : Usage.read arguments = .error fault →
      FailsEarly arguments cwd disk
  /-- The settings file cannot be read, or does not say what settings files say. -/
  | config {given : Settings} {cause : ConfigFault} :
      Usage.read arguments = .ok (.bundle given) → given.complete disk cwd = .error cause →
      FailsEarly arguments cwd disk
  /-- Bundling fails. -/
  | bundle {given settings : Settings} {cause : Error} :
      Usage.read arguments = .ok (.bundle given) → given.complete disk cwd = .ok settings →
      bundleOf settings cwd disk = some (.error cause) → FailsEarly arguments cwd disk

/-- **A call to bundle fails early or has a bundle.** -/
theorem failsEarly_or_bundled [Engine] (hnames : disk.Nameable) (hcwd : disk.IsCanonical cwd)
    (harguments : Usage.read arguments = .ok (.bundle given)) :
    FailsEarly arguments cwd disk ∨ ∃ settings g,
      given.complete disk cwd = .ok settings ∧ bundleOf settings cwd disk = some (.ok g) := by
  rcases hsettings : given.complete disk cwd with cause | settings
  · exact Or.inl (.config harguments hsettings)
  · obtain ⟨⟨outcome, S'⟩, hbundle⟩ := Option.isSome_iff_exists.1
      (DiskStore.isSome_bundle_of_nameable (S := ⟨disk, cwd, {}⟩) hnames hcwd nofun
        settings.packages settings.followTypes (Path.parse (pathFrom cwd settings.entry)))
    have hanswer : bundleOf settings cwd disk = some outcome := by
      rw [bundleOf, hbundle, Option.map_some]
    rcases outcome with cause | g
    · exact Or.inl (.bundle harguments hsettings hanswer)
    · exact Or.inr ⟨settings, g, rfl, hanswer⟩

/-- **Runs that fail early leave no trace.** The disk is as it was, so that the file for the bundle
is neither emptied nor made; nothing is printed as a report; and the status tells of the failure.

And no run fails without a cause: with a bundle that can be put where it is asked for, a run leaves
the disk with the bundle there, prints its report, and has the status of success. -/
theorem run_leavesNoTrace [Engine] (arguments : List String) (around : Surroundings) (disk : Disk) :
    (FailsEarly arguments around.cwd disk →
      (run arguments around disk).2 = disk ∧ (run arguments around disk).1.stdout = "" ∧
        (run arguments around disk).1.code ≠ 0) ∧
    ∀ (given settings : Settings) (g : Graph) (left : Disk),
      Usage.read arguments = .ok (.bundle given) →
      given.complete disk around.cwd = .ok settings →
      bundleOf settings around.cwd disk = some (.ok g) →
      deliver settings around.cwd g disk = (.ok (), left) →
      run arguments around disk = (⟨0, report settings around g, ""⟩, left) := by
  refine ⟨fun h ↦ ?_, fun given settings g left harguments hsettings hbundle hdeliver ↦ ?_⟩
  · cases h with
    | refused harguments => simp [run, harguments]
    | config harguments hsettings => simp [run, harguments, runBundle, attempt, hsettings]
    | bundle harguments hsettings hbundle =>
      simp [run, harguments, runBundle, attempt, hsettings, collect_eq, hbundle]
  · simp [run, harguments, runBundle, attempt, hsettings, collect_eq, hbundle, hdeliver]

/-! ### A failure behind the entry -/

/-- A module whose import leads to one that names a package, and the bundle of an earlier run. -/
def strayDisk : Disk :=
  ⟨[(["a.ts"], .file (Utf8.encode "import './b.ts';")),
    (["b.ts"], .file (Utf8.encode "import 'x';")),
    (["out.js"], .file (Utf8.encode "// of an earlier run"))]⟩

theorem isCanonical_strayDisk : strayDisk.IsCanonical [] ∧ strayDisk.IsCanonical ["a.ts"] ∧
    strayDisk.IsCanonical ["b.ts"] ∧ strayDisk.IsCanonical ["out.js"] := by
  have hroot := Disk.isCanonical_root strayDisk
  exact ⟨hroot, hroot.concat rfl (by decide) (by decide) (by decide) rfl nofun,
    hroot.concat rfl (by decide) (by decide) (by decide) rfl nofun,
    hroot.concat rfl (by decide) (by decide) (by decide) rfl nofun⟩

/-- The settings of a run that would write its bundle over that of the earlier run. -/
def straySettings : Settings :=
  { entry := "a.ts", output := some "out.js" }

/-- The disk as a walk finds it. -/
def strayStore : DiskStore :=
  { disk := strayDisk, cwd := [] }

/-- What a walk is answered there. -/
def strayProject : Project :=
  (BundleOptions.ofTable none false).answers strayStore

/-- There is no settings file. -/
theorem complete_strayDisk (h : given.config = none) :
    given.complete strayDisk [] = .ok given := by
  have hdefault : Place.text [FileSettings.defaultName] = "/tsbundle.json" := by decide +kernel
  have hsteps : Step.ofText "/tsbundle.json" = [.name "tsbundle.json"] := by decide +kernel
  have hstart : Step.start [] "/tsbundle.json" = [] := by decide +kernel
  have hmissing : strayDisk.leadsToFile [] "/tsbundle.json" = false := by
    simp only [Disk.leadsToFile, Disk.look?, Disk.reach, hsteps, hstart, Disk.walk]
    decide +kernel
  simp [Settings.complete, FileSettings.pathFor, h, hdefault, hmissing]

/-- The second module is what the first one needs, and it is not complete. -/
theorem not_complete_strayDisk :
    ⟨true, ["b.ts"]⟩ ∈ strayProject.needed ⟨true, ["a.ts"]⟩ ∧
      ¬ strayProject.Complete ⟨true, ["b.ts"]⟩ := by
  obtain ⟨hroot, ha, hb, -⟩ := isCanonical_strayDisk
  have hreadA : strayProject.reads ⟨true, ["a.ts"]⟩
      (.ok (Utf8.encode "import './b.ts';", [⟨"./b.ts", .static, false, 8, 14⟩])) :=
    DiskStore.visited_path (S := strayStore) nofun ha rfl (by decide +kernel)
  have hreadB : strayProject.reads ⟨true, ["b.ts"]⟩
      (.ok (Utf8.encode "import 'x';", [⟨"x", .static, false, 8, 9⟩])) :=
    DiskStore.visited_path (S := strayStore) nofun hb rfl (by decide +kernel)
  have hresolve : FileStore.resolve ⟨true, []⟩ ⟨false, ["b.ts"]⟩ strayStore =
      .ok ⟨true, ["b.ts"]⟩ :=
    bind_eq_ok.2 ⟨[], DiskStore.place_path (S := strayStore) hroot,
      bind_eq_ok.2 ⟨["b.ts"], DiskStore.foldlM_step_eq (S := strayStore) hb, rfl⟩⟩
  constructor
  · have hpath : Reference.path ⟨"./b.ts", .static, false, 8, 14⟩ = ⟨false, ["b.ts"]⟩ := by decide
    refine .single ⟨_, _, _, hreadA, List.mem_singleton_self _, ?_⟩
    refine DiskStore.leads_of_locate rfl rfl (by decide) ?_
    rw [hpath]
    exact DiskStore.locate_of_resolve (S := strayStore) hb rfl hresolve
  · -- nothing is known about the package that its only reference names
    rintro ⟨content, references, hreads, hall⟩
    obtain ⟨rfl, rfl⟩ := Prod.mk.inj (Except.ok.inj (Eq.trans (Eq.symm hreads) hreadB))
    obtain ⟨target, directory, -, htarget⟩ := hall _ (List.mem_singleton_self _)
    have hrelative : Reference.isRelative ⟨"x", .static, false, 8, 9⟩ = false := by decide
    simp [BundleOptions.target, hrelative, BundleOptions.packageTarget, BundleOptions.ofTable]
      at htarget

/-- Bundling fails at the second module. -/
theorem exists_error_strayDisk :
    ∃ cause, bundleOf straySettings [] strayDisk = some (.error cause) := by
  obtain ⟨hroot, ha, -⟩ := isCanonical_strayDisk
  have hentry : entryPath (Place.path ["a.ts"]) strayStore =
      (.ok (Place.path ["a.ts"]), strayStore.skip 1) :=
    DiskStore.entryPath_path nofun ha rfl
  obtain ⟨cause, S', hbundle⟩ := (DiskStore.bundle_fails_iff (S := strayStore) (by decide) hroot
    nofun none false (Place.path ["a.ts"])).2
      (Or.inr ⟨_, congrArg Prod.fst hentry, _, not_complete_strayDisk⟩)
  exact ⟨cause, congrArg (Option.map Prod.fst) hbundle⟩

/-- The bundle of the earlier run can be bundled itself. -/
theorem exists_bundle_strayDisk :
    ∃ g, bundleOf { entry := "out.js" } [] strayDisk = some (.ok g) := by
  obtain ⟨hroot, -, -, hout⟩ := isCanonical_strayDisk
  obtain ⟨g, S', hbundle⟩ :=
    DiskStore.exists_bundle_of_path (S := strayStore) (by decide) hroot nofun
    hout rfl (by decide +kernel) none false
  exact ⟨g, congrArg (Option.map Prod.fst) hbundle⟩

/-- The bundle of the earlier run stays, although a run that fails is asked to write its own there.
A run that bundles it prints its report. -/
theorem run_leavesNoTrace_strayDisk :
    FailsEarly ["bundle", "a.ts", "--output", "out.js"] [] strayDisk ∧
      (run ["bundle", "a.ts", "--output", "out.js"] ⟨[], .plain, 0⟩ strayDisk).2 = strayDisk ∧
      (run ["bundle", "a.ts", "--output", "out.js"] ⟨[], .plain, 0⟩ strayDisk).1.code ≠ 0 ∧
      ∃ g, run ["bundle", "out.js"] ⟨[], .plain, 0⟩ strayDisk =
        (⟨0, report { entry := "out.js" } ⟨[], .plain, 0⟩ g, ""⟩, strayDisk) := by
  have harguments : Usage.read ["bundle", "a.ts", "--output", "out.js"] =
      .ok (.bundle straySettings) := by
    decide +kernel
  have harguments' : Usage.read ["bundle", "out.js"] = .ok (.bundle { entry := "out.js" }) := by
    decide +kernel
  obtain ⟨cause, hbundle⟩ := exists_error_strayDisk
  obtain ⟨g, hbundle'⟩ := exists_bundle_strayDisk
  have hfails := FailsEarly.bundle harguments (complete_strayDisk rfl) hbundle
  obtain ⟨hdisk, -, hcode⟩ := (run_leavesNoTrace _ ⟨[], .plain, 0⟩ _).1 hfails
  exact ⟨hfails, hdisk, hcode, g, (run_leavesNoTrace _ ⟨[], .plain, 0⟩ _).2 _ _ g strayDisk
    harguments' (complete_strayDisk rfl) hbundle' rfl⟩

end Command

end ModuleBundler
