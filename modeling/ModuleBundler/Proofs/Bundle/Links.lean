import ModuleBundler.Proofs.Bundle.Depth
import ModuleBundler.Proofs.Bundle.Identity
import ModuleBundler.Proofs.Bundle.OnDisk
import ModuleBundler.Proofs.Disk.Canonical
import ModuleBundler.Syntax.Program

/-!
# Bundles of files behind links

On a disk with links a file has as many paths as there are ways to it. Two things keep a bundle from
reading it more than once. Whatever a store on a disk resolves, it answers with the path of a
canonical place; and a canonical place has one path, which leads to it again.

Without a resolver, the modules of a graph are the entry, known by the place that it was opened at,
and what relative requests were resolved to (`DiskStore.exists_place_of_mem_paths`). So the graph
has one module for each file, by whatever links its modules were asked for
(`DiskStore.canonical_behindLinks`).
-/

namespace ModuleBundler

namespace DiskStore

variable {S S' : DiskStore} {options : BundleOptions DiskStore} {depth : Nat} {entry p : Path}
  {place : Place} {g : Graph}

/-- A file that a relative request stands for has the path of a canonical place. -/
theorem exists_place_of_locate (hnames : S.disk.Nameable) (hcwd : S.disk.IsCanonical S.cwd)
    {directory request : Path} (hlocate : Locate.locate directory request S = .ok p) :
    ∃ place, S.disk.IsCanonical place ∧ S.disk.isFile place = true ∧ Place.path place = p := by
  obtain ⟨candidate, -, hresolve, hfile⟩ := Locate.exists_candidate_of_locate hlocate
  obtain ⟨place, hplace, rfl⟩ := isCanonical_of_resolve hnames hcwd hresolve
  exact ⟨place, hplace, (isFile_path hplace).symm.trans hfile, rfl⟩

/-- A request that itself resolves to a file stands for it. -/
theorem locate_of_resolve (h : S.disk.IsCanonical place) (hfile : S.disk.isFile place = true)
    {directory request : Path} (hresolve : FileStore.resolve directory request S = .ok place.path) :
    Locate.locate directory request S = .ok place.path := by
  have hfound : FileStore.isFile place.path S = true := (isFile_path h).trans hfile
  rw [Locate.locate, List.findSome?_cons, Locate.file?, hresolve]
  simp only [hfound, if_true]

/-- A relative reference to values leads to the module that its path stands for. -/
theorem leads_of_locate [Engine] {packages : Option PackageTable} {followTypes : Bool}
    {importer directory : Path} {reference : Reference}
    (hparent : importer.parent = .ok directory) (htypes : reference.typeOnly = false)
    (hrelative : reference.isRelative = true)
    (hlocate : Locate.locate directory reference.path S = .ok p) :
    ((BundleOptions.ofTable packages followTypes).answers S).leads importer reference
      (.ok (.module p)) :=
  ⟨directory, hparent, by simp [BundleOptions.target, htypes, hrelative, hlocate]⟩

/-- What the file at a canonical place says. -/
theorem visited_path [Engine] (hfresh : S.handles.Fresh) (h : S.disk.IsCanonical place)
    {data : Bytes} {references : List Reference} (hdata : S.disk.entry? place = some (.file data))
    (hreferences : Reference.references place.path data
      (Engine.parse (.ofPath place.path) data none) = .ok references) :
    Module.visited place.path S = .ok (data, references) := by
  obtain ⟨n, hload⟩ := load_eq hfresh place.path
  have hne : place ≠ [] := by
    rintro rfl
    cases hdata
  have hparent : (Place.path place).parent = .ok ⟨true, place.dropLast⟩ := by
    rw [Path.parent, if_neg (by simpa [Place.path] using hne)]
    rfl
  rw [Module.visited, Module.load_eq, hload, content_path h hdata]
  simp only [hreferences, hparent, Except.map]

/-- A file at a canonical place is an entry under the path of the place. -/
theorem entryPath_path (hfresh : S.handles.Fresh) (h : S.disk.IsCanonical place)
    (hfile : S.disk.isFile place = true) :
    entryPath place.path S = (.ok place.path, S.skip 1) := by
  rcases entryPath_cases hfresh place.path with ⟨e, hopen, -⟩ | ⟨found, hfound, -, hentry⟩
  · rcases openFile_eq_error.1 hopen with hplace | ⟨found, hfound, hno, -⟩
    · rw [place_path h] at hplace
      cases hplace
    · obtain rfl := Except.ok.inj ((place_path h).symm.trans hfound)
      rw [hfile] at hno
      cases hno
  · obtain rfl := Except.ok.inj ((place_path h).symm.trans hfound)
    exact hentry

/-- **Without a resolver, the modules of a graph are files at canonical places**, and no place has
two of them. -/
theorem exists_place_of_mem_paths [Engine] (hnames : S.disk.Nameable)
    (hcwd : S.disk.IsCanonical S.cwd) (hfresh : S.handles.Fresh) (hnone : options.resolver = none)
    (hcollect : collect options depth entry S = some (.ok g, S')) :
    g.paths.Nodup ∧ ∀ p ∈ g.paths,
      ∃ place, S.disk.IsCanonical place ∧ S.disk.isFile place = true ∧ Place.path place = p := by
  obtain ⟨resolver, followTypes⟩ := options
  obtain rfl : resolver = none := hnone
  have hdescribes : ((BundleOptions.ofTable none followTypes).answers S).Describes
      (.ofTable none followTypes) fun S' ↦ ∃ n, S' = S.skip n :=
    BundleOptions.describes_answers hfresh
  obtain ⟨start, hstart, hvisits⟩ :=
    collect_eq_ok hdescribes (snd_entryPath hfresh entry) hcollect
  refine ⟨hvisits.nodup_paths, fun p hp ↦ ?_⟩
  rcases hvisits.exists_link hp with rfl | ⟨importer, -, content, references, reference, -, -,
    directory, -, htarget⟩
  · rcases entryPath_cases hfresh entry with ⟨e, -, hentry⟩ | ⟨place, hplace, hfile, hentry⟩
    · rw [hentry] at hstart
      cases hstart
    · rw [hentry] at hstart
      exact ⟨place, isCanonical_of_place hnames hcwd hplace, hfile, Except.ok.inj hstart⟩
  · rcases BundleOptions.module_of_target htarget with hlocate | htable
    · exact exists_place_of_locate hnames hcwd hlocate
    · exact absurd htable List.not_mem_nil

/-- **A bundle of files behind links always has an answer.** -/
theorem isSome_bundle_of_nameable [Engine] (hnames : S.disk.Nameable)
    (hcwd : S.disk.IsCanonical S.cwd) (hfresh : S.handles.Fresh) (packages : Option PackageTable)
    (followTypes : Bool) (entry : Path) : (bundle packages followTypes entry S).isSome = true := by
  refine isSome_bundle_of_locate hfresh (fun hlocate ↦ ?_) packages followTypes entry
  obtain ⟨place, -, hfile, hpath⟩ := exists_place_of_locate hnames hcwd hlocate
  exact ⟨place, hfile, hpath⟩

/-- **Behind links, everything is known by its canonical path.** What the system finds it finds
again by its own text, and so all that is above it. What resolves, from whatever directory and by
whatever request, leads nowhere up, is found by the system under its own path, resolves to itself,
and if it is a file it opens under this path.

Without a resolver, all modules of a graph are files that the system finds under their own paths,
and no two modules lead to one place. -/
theorem canonical_behindLinks [Engine] (S : DiskStore) (hnames : S.disk.Nameable)
    (hcwd : S.disk.canonical [] S.cwd.text = .ok S.cwd) (hfresh : S.handles.Fresh) :
    (∀ (text : String) (place front : Place), S.disk.canonical S.cwd text = .ok place →
      front <+: place → S.disk.canonical S.cwd front.text = .ok front) ∧
    (∀ context relative p, FileStore.resolve context relative S = .ok p →
      p.isCanonical = true ∧ S.disk.canonical S.cwd p.toOsText = .ok p.segments ∧
      FileStore.resolve Path.root p S = .ok p ∧
      (FileStore.isFile p S = true → FileStore.openedPath p S = .ok p)) ∧
    ∀ (options : BundleOptions DiskStore) (depth : Nat) (entry : Path) (g : Graph) (S' : DiskStore),
      options.resolver = none → collect options depth entry S = some (.ok g, S') →
      (∀ p ∈ g.paths, p.isCanonical = true ∧
        S.disk.canonical S.cwd p.toOsText = .ok p.segments ∧ S.disk.isFile p.segments = true) ∧
      ∀ (i j : Nat) (p q : Path) (place : Place), g.paths[i]? = some p →
        g.paths[j]? = some q → S.disk.canonical S.cwd p.toOsText = .ok place →
        S.disk.canonical S.cwd q.toOsText = .ok place → i = j := by
  replace hcwd : S.disk.IsCanonical S.cwd := (Disk.isCanonical_iff hnames []).2 hcwd
  have hfound : ∀ {place : Place}, S.disk.IsCanonical place →
      S.disk.canonical S.cwd place.text = .ok place := fun hplace ↦ hplace.canonical_text S.cwd
  refine ⟨fun text place front hplace hfront ↦ ?_, fun context relative p hresolve ↦ ?_,
    fun options depth entry g S' hnone hcollect ↦ ?_⟩
  · exact hfound ((Disk.isCanonical_of_canonical hnames hcwd hplace).of_isPrefix hfront)
  · obtain ⟨place, hplace, rfl⟩ := isCanonical_of_resolve hnames hcwd hresolve
    exact ⟨hplace.isCanonical_path, hfound hplace, resolve_path hplace,
      fun hfile ↦ openedPath_path hfresh hplace ((isFile_path hplace).symm.trans hfile)⟩
  · obtain ⟨hnodup, hpaths⟩ := exists_place_of_mem_paths hnames hcwd hfresh hnone hcollect
    have hmodule : ∀ p ∈ g.paths, p.isCanonical = true ∧
        S.disk.canonical S.cwd p.toOsText = .ok p.segments ∧
        S.disk.isFile p.segments = true := by
      intro p hp
      obtain ⟨place, hplace, hfile, rfl⟩ := hpaths p hp
      exact ⟨hplace.isCanonical_path, hfound hplace, hfile⟩
    refine ⟨hmodule, fun i j p q place hi hj hp hq ↦ ?_⟩
    obtain ⟨hcanonical, hpath, -⟩ := hmodule p (List.mem_of_getElem? hi)
    obtain ⟨hcanonical', hpath', -⟩ := hmodule q (List.mem_of_getElem? hj)
    -- both paths are that of the place they lead to
    obtain rfl : p = q := by
      have hsegments : p.segments = q.segments :=
        (Except.ok.inj (hpath.symm.trans hp)).trans (Except.ok.inj (hpath'.symm.trans hq)).symm
      obtain ⟨absolute, segments⟩ := p
      obtain ⟨absolute', segments'⟩ := q
      rw [Path.mk.injEq]
      exact ⟨(Path.absolute_of_isCanonical hcanonical).trans
        (Path.absolute_of_isCanonical hcanonical').symm, hsegments⟩
    have hlt : i < g.paths.length := (List.getElem?_eq_some_iff.1 hi).1
    exact (List.getElem?_inj hlt hnodup).1 (hi.trans hj.symm)

/-! ### A file behind two links -/

/-- A module that imports another one twice, by way of two links; one leads to the other. -/
def linkedDisk : DiskStore :=
  { disk := ⟨[(["app"], .directory),
      (["app", "a.ts"], .file (Utf8.encode "import '../near/b.ts'; import '../far/b.ts';")),
      (["lib"], .directory), (["lib", "b.ts"], .file []), (["near"], .link "lib"),
      (["far"], .link "/near")]⟩, cwd := [] }

theorem isCanonical_linkedDisk : linkedDisk.disk.IsCanonical ["app"] ∧
    linkedDisk.disk.IsCanonical ["app", "a.ts"] ∧ linkedDisk.disk.IsCanonical ["lib"] ∧
    linkedDisk.disk.IsCanonical ["lib", "b.ts"] := by
  have hbelow : ∀ {name : String}, Path.Plain name ∧ name ≠ Path.parentName →
      Disk.hasNul name = false → Disk.isTooLong true [] name = false →
      linkedDisk.disk.entry? [name] = some .directory → linkedDisk.disk.IsCanonical [name] :=
    fun hname hnul hshort hentry ↦ (Disk.isCanonical_root linkedDisk.disk).concat rfl hname hnul
      hshort hentry nofun
  have happ : linkedDisk.disk.IsCanonical ["app"] :=
    hbelow (by decide) (by decide) (by decide) (by decide)
  have hlib : linkedDisk.disk.IsCanonical ["lib"] :=
    hbelow (by decide) (by decide) (by decide) (by decide)
  exact ⟨happ, happ.concat (by decide) (by decide) (by decide) (by decide) rfl nofun, hlib,
    hlib.concat (by decide) (by decide) (by decide) (by decide) rfl nofun⟩

/-- Both links lead to the directory of the file. -/
theorem step_linkedDisk : linkedDisk.step [] "near" = .ok ["lib"] ∧
    linkedDisk.step [] "far" = .ok ["lib"] := by
  have hlib : ∀ links, linkedDisk.disk.walk .use true links [] (["lib"].map Step.ofSegment) =
      .ok (.found ["lib"] .directory) :=
    isCanonical_linkedDisk.2.2.1.walk_segments rfl true
  have hthrough : ∀ {name target next : String} {links : Nat},
      Disk.isTooLong true [] name = false →
      linkedDisk.disk.entry? ([] ++ [name]) = some (.link target) →
      Step.start [] target = [] → Step.ofText target = [next].map Step.ofSegment →
      linkedDisk.disk.walk .use true links [] ([next].map Step.ofSegment) =
        .ok (.found ["lib"] .directory) →
      linkedDisk.disk.walk .use true (links + 1) [] [.name name] =
        .ok (.found ["lib"] .directory) := by
    intro name target next links hshort hlink hstart htext hnext
    rw [Disk.walk_link rfl hshort hlink, hstart, htext, List.append_nil]
    exact hnext
  have hnear : ∀ links, linkedDisk.disk.walk .use true (links + 1) []
      (["near"].map Step.ofSegment) = .ok (.found ["lib"] .directory) :=
    fun links ↦ hthrough (by decide) rfl (by decide) (by decide) (hlib links)
  have hfar : ∀ links, linkedDisk.disk.walk .use true (links + 2) []
      (["far"].map Step.ofSegment) = .ok (.found ["lib"] .directory) :=
    fun links ↦ hthrough (by decide) rfl (by decide) (by decide) (hnear links)
  have hstep : ∀ {name : String}, Path.WellFormed ⟨true, [name]⟩ → name ≠ Path.parentName →
      Disk.hasNul (Path.toOsText ⟨true, [name]⟩) = false →
      linkedDisk.disk.walk .use true 40 [] ([name].map Step.ofSegment) =
        .ok (.found ["lib"] .directory) → linkedDisk.step [] name = .ok ["lib"] := by
    intro name hplain hname hnul hwalk
    have hcanonical : linkedDisk.disk.canonical [] (Path.toOsText ⟨true, [name]⟩) =
        .ok ["lib"] := by
      rw [Disk.canonical_toOsText rfl hplain, hnul, if_neg Bool.false_ne_true, Disk.mostLinks,
        hwalk]
    rw [step, if_neg hname]
    exact asked_eq_ok.2 hcanonical
  exact ⟨hstep (by decide) (by decide) (by decide) (hnear 39),
    hstep (by decide) (by decide) (by decide) (hfar 38)⟩

/-- By way of either link, the request of the module resolves to the file. -/
theorem resolve_linkedDisk {link : String} (hlink : linkedDisk.step [] link = .ok ["lib"]) :
    FileStore.resolve ⟨true, ["app"]⟩ ⟨false, ["..", link, "b.ts"]⟩ linkedDisk =
      .ok ⟨true, ["lib", "b.ts"]⟩ := by
  have hlib : ["b.ts"].foldlM linkedDisk.step ["lib"] = .ok ["lib", "b.ts"] :=
    foldlM_step_eq isCanonical_linkedDisk.2.2.2
  have hwalk : ["..", link, "b.ts"].foldlM linkedDisk.step ["app"] = .ok ["lib", "b.ts"] :=
    bind_eq_ok.2 ⟨[], rfl, bind_eq_ok.2 ⟨["lib"], hlink, hlib⟩⟩
  exact bind_eq_ok.2 ⟨["app"], place_path isCanonical_linkedDisk.1,
    bind_eq_ok.2 ⟨["lib", "b.ts"], hwalk, rfl⟩⟩

/-- Collecting the module records it and the file, the latter once. -/
theorem exists_collect_linkedDisk : ∃ depth g S',
    collect (.ofTable none false) depth ⟨true, ["app", "a.ts"]⟩ linkedDisk = some (.ok g, S') ∧
      g.paths = [⟨true, ["app", "a.ts"]⟩, ⟨true, ["lib", "b.ts"]⟩] := by
  obtain ⟨-, ha, -, hb⟩ := isCanonical_linkedDisk
  have hfresh : linkedDisk.handles.Fresh := nofun
  let P : Project := (BundleOptions.ofTable none false).answers linkedDisk
  let content : Bytes := Utf8.encode "import '../near/b.ts'; import '../far/b.ts';"
  let near : Reference := ⟨"../near/b.ts", .static, false, 8, 20⟩
  let far : Reference := ⟨"../far/b.ts", .static, false, 31, 42⟩
  have hreadA : P.reads ⟨true, ["app", "a.ts"]⟩ (.ok (content, [near, far])) :=
    visited_path hfresh ha rfl (by decide +kernel)
  have hreadB : P.reads ⟨true, ["lib", "b.ts"]⟩ (.ok ([], [])) :=
    visited_path hfresh hb rfl (by decide +kernel)
  have hleads : ∀ {reference : Reference} {link : String},
      reference.typeOnly = false → reference.isRelative = true →
      reference.path = ⟨false, ["..", link, "b.ts"]⟩ → linkedDisk.step [] link = .ok ["lib"] →
      P.leads ⟨true, ["app", "a.ts"]⟩ reference (.ok (.module ⟨true, ["lib", "b.ts"]⟩)) := by
    intro reference link htypes hrelative hpath hlink
    refine leads_of_locate rfl htypes hrelative ?_
    rw [hpath]
    exact locate_of_resolve hb rfl (resolve_linkedDisk hlink)
  let pair : Graph := ((({} : Graph).insert
      { path := ⟨true, ["app", "a.ts"]⟩, content, references := [near, far] }).insert
      { path := ⟨true, ["lib", "b.ts"]⟩, content := [], references := [] }).addDependency 0 1
  have hknown : P.Follows 0 ⟨true, ["app", "a.ts"]⟩ [far] pair (pair.addDependency 0 1) :=
    .known (hleads rfl (by decide) (by decide) step_linkedDisk.2) (by decide +kernel) .nil
  have hvisits : P.Visits ⟨true, ["app", "a.ts"]⟩ {} 0 (pair.addDependency 0 1) :=
    Or.inr ⟨rfl, rfl, content, [near, far], hreadA,
      .found (hleads rfl (by decide) (by decide) step_linkedDisk.1) (by decide +kernel) hreadB .nil
        hknown⟩
  obtain ⟨depth, S', hvisit, -⟩ := Walk.exists_visit (BundleOptions.describes_answers hfresh)
    (BundleOptions.functional_answers _ linkedDisk) hvisits ⟨1, rfl⟩
  refine ⟨depth, pair.addDependency 0 1, S', ?_, by decide +kernel⟩
  have hentry : entryPath ⟨true, ["app", "a.ts"]⟩ linkedDisk =
      (.ok ⟨true, ["app", "a.ts"]⟩, linkedDisk.skip 1) := entryPath_path hfresh ha rfl
  rw [collect, hentry]
  simp only [hvisit]

/-- Either request resolves to the file, which resolves to itself, and of the graph no two modules
lead to one place. -/
theorem canonical_behindLinks_linkedDisk : linkedDisk.disk.Nameable ∧
    linkedDisk.disk.canonical [] linkedDisk.cwd.text = .ok linkedDisk.cwd ∧
    linkedDisk.handles.Fresh ∧
    FileStore.resolve Path.root ⟨true, ["lib", "b.ts"]⟩ linkedDisk = .ok ⟨true, ["lib", "b.ts"]⟩ ∧
    ∃ depth g S', collect (.ofTable none false) depth ⟨true, ["app", "a.ts"]⟩ linkedDisk =
        some (.ok g, S') ∧
      g.paths = [⟨true, ["app", "a.ts"]⟩, ⟨true, ["lib", "b.ts"]⟩] ∧
      ∀ p ∈ g.paths, linkedDisk.disk.canonical [] p.toOsText = .ok p.segments := by
  have hnames : linkedDisk.disk.Nameable := by decide
  have hcwd : linkedDisk.disk.canonical [] linkedDisk.cwd.text = .ok linkedDisk.cwd :=
    (Disk.isCanonical_root linkedDisk.disk).canonical_text []
  have hfresh : linkedDisk.handles.Fresh := nofun
  obtain ⟨-, hresolve, hbundle⟩ := canonical_behindLinks linkedDisk hnames hcwd hfresh
  obtain ⟨depth, g, S', hcollect, hpaths⟩ := exists_collect_linkedDisk
  exact ⟨hnames, hcwd, hfresh, (hresolve _ _ _ (resolve_linkedDisk step_linkedDisk.2)).2.2.1, depth,
    g, S', hcollect, hpaths, fun p hp ↦ ((hbundle _ _ _ _ _ rfl hcollect).1 p hp).2.1⟩

end DiskStore

end ModuleBundler
