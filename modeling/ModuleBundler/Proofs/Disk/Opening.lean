import ModuleBundler.Proofs.Disk.Parts

/-!
# Opening and resolving

A store on a disk has two ways from a path to a place. To open a file, it reads the path to see that
it does not leave the root, and then hands the whole of it to the system. To resolve a request it
goes step by step: it asks the system about every name, from the place where it stands, and takes
the steps up itself. On the way both follow links, and both go up from where a link led to.

So they lead to the same place (`DiskStore.opens_as_resolved`), with exceptions of two kinds.

* **The root.** The step-by-step way knows when a step up would leave the root. The other one goes
  by how the path reads, and the path may read as one that leaves the root while it does not, or the
  other way round: then the system lets it stay at the root. `DiskStore.upwardDisk` has a path of
  each kind.
* **The number of links.** The system follows so many of them for each question, and the whole path
  is one question.

The comparison is along the segments. A step to a name is a walk of its own
(`DiskStore.step_name`), so that steps are a walk in parts, and the parts may be put together.
-/

namespace ModuleBundler

namespace Disk

variable {d : Disk} {cwd place mid : Place} {p : Path} {name : String} {links : Nat}
  {entry : DiskEntry}

/-- What plain segments lead to from a canonical place is canonical. -/
theorem IsCanonical.walk_plain {segments : List String} (h : d.IsCanonical place)
    (hnames : d.Nameable) (hplain : ∀ segment ∈ segments, Path.Plain segment)
    (hwalk : d.walk .use true links place (segments.map Step.ofSegment) = .ok (.found mid entry)) :
    d.IsCanonical mid := by
  refine h.walk hnames (fun name hname ↦ ?_) hwalk
  obtain ⟨segment, hsegment, hstep⟩ := List.mem_map.1 hname
  rw [Step.ofSegment] at hstep
  split at hstep
  case isTrue => cases hstep
  case isFalse hup =>
    obtain rfl := Step.name.inj hstep
    exact ⟨hplain segment hsegment, hup⟩

/-- What a name leads to from a canonical place is canonical. -/
theorem IsCanonical.walk_name (h : d.IsCanonical place) (hnames : d.Nameable)
    (hname : Path.Plain name ∧ name ≠ Path.parentName)
    (hwalk : d.walk .use true links place [.name name] = .ok (.found mid entry)) :
    d.IsCanonical mid := by
  have hsteps : [name].map Step.ofSegment = [.name name] := by
    rw [List.map_singleton, Step.ofSegment, if_neg hname.2]
  exact h.walk_plain hnames (List.forall_mem_singleton.2 hname.1) (hsteps ▸ hwalk)

/-- The system finds a place by a path if it takes the path and a walk along it ends there. -/
theorem canonical_eq_ok (hp : p.absolute = true) (hplain : p.WellFormed) :
    d.canonical cwd p.toOsText = .ok place ↔ p.segments.any hasNul = false ∧
      ∃ entry, d.walk .use true mostLinks [] (p.segments.map Step.ofSegment) =
        .ok (.found place entry) := by
  rw [canonical_toOsText hp hplain, hasNul_toOsText hp]
  rcases p.segments.any hasNul with - | -
  · rcases hwalk : d.walk .use true mostLinks [] (p.segments.map Step.ofSegment)
      with fault | landing
    · simp
    · obtain ⟨q, entry, rfl⟩ := exists_found_of_walk hwalk
      simp
  · simp

end Disk

namespace DiskStore

variable {S : DiskStore} {place mid q : Place} {segment : String} {segments : List String}
  {links : Nat} {p r : Path} {entry : DiskEntry}

/-! ### Steps -/

/-- There is no step from what is no directory. -/
theorem step_of_not_isDirectory (hdirectory : S.disk.isDirectory place = false) :
    S.step place segment ≠ .ok mid := by
  intro hstep
  rw [step, hdirectory] at hstep
  split at hstep <;> cases hstep

/-- A step up leads to the directory above, unless it leaves the root. -/
theorem step_parentName (hdirectory : S.disk.isDirectory place = true) :
    S.step place Path.parentName =
      if place = [] then .error (.invalidPath .aboveRoot) else .ok place.dropLast := by
  rw [step, if_pos rfl, hdirectory]
  rcases place with - | ⟨name, place⟩ <;> rfl

/-- **A step to a name is a walk** from the place where one stands, if this is canonical. -/
theorem step_name (hplace : S.disk.IsCanonical place)
    (hsegment : Path.Plain segment ∧ segment ≠ Path.parentName)
    (hdirectory : S.disk.isDirectory place = true) :
    S.step place segment = .ok mid ↔ Disk.hasNul segment = false ∧
      ∃ entry, S.disk.walk .use true Disk.mostLinks place [.name segment] =
        .ok (.found mid entry) := by
  have hplain : (Place.path (place ++ [segment])).WellFormed := by
    intro name hname
    rcases List.mem_append.1 hname with hname | hname
    · exact hplace.wellFormed name hname
    · exact List.mem_singleton.1 hname ▸ hsegment.1
  have hclean : place.any Disk.hasNul = false := by
    have hnul := Disk.hasNul_of_fits rfl hplace.fits
    rwa [Disk.hasNul_toOsText rfl] at hnul
  have hnul : (place ++ [segment]).any Disk.hasNul = Disk.hasNul segment := by
    simp [hclean]
  have hsteps : (place ++ [segment]).map Step.ofSegment =
      place.map Step.ofSegment ++ [.name segment] := by
    rw [List.map_append, List.map_singleton, Step.ofSegment, if_neg hsegment.2]
  rw [step, if_neg hsegment.2, hdirectory]
  show asked _ (S.disk.canonical S.cwd (Place.path (place ++ [segment])).toOsText) = _ ↔ _
  rw [asked_eq_ok, Disk.canonical_eq_ok rfl hplain]
  show (place ++ [segment]).any Disk.hasNul = false ∧
    (∃ entry, S.disk.walk .use true _ [] ((place ++ [segment]).map Step.ofSegment) = _) ↔ _
  rw [hnul, hsteps, hplace.walk_root]

/-- A step to a name fails otherwise than above the root. -/
theorem step_ne_aboveRoot (hsegment : segment ≠ Path.parentName) :
    S.step place segment ≠ .error (.invalidPath .aboveRoot) := by
  intro hfails
  rw [step, if_neg hsegment] at hfails
  split at hfails
  · cases hfails
  · rcases hanswer : S.disk.canonical S.cwd (Place.text (place ++ [segment])) with fault | q
    · simp only [hanswer, asked, OsFault.along] at hfails
      split at hfails <;> cases hfails
    · simp only [hanswer, asked] at hfails
      cases hfails

/-! ### Steps and walks -/

/-- **Where a walk along segments ends, the steps lead**, unless one of them leaves the root, where
the system stays. A part of the walk has no more links left than the whole had, and so each step,
which may follow as many as the system does, follows them as well. -/
theorem foldlM_step_of_walk (hnames : S.disk.Nameable) (hplace : S.disk.IsCanonical place)
    (hplain : ∀ segment ∈ segments, Path.Plain segment) (hclean : segments.any Disk.hasNul = false)
    (hlinks : links ≤ Disk.mostLinks)
    (hwalk : S.disk.walk .use true links place (segments.map Step.ofSegment) =
      .ok (.found q entry)) :
    segments.foldlM S.step place = .ok q ∨
      segments.foldlM S.step place = .error (.invalidPath .aboveRoot) := by
  induction segments generalizing place links with
  | nil =>
    rw [List.map_nil, Disk.walk] at hwalk
    split at hwalk
    · obtain ⟨rfl, -⟩ := Landing.found.inj (Except.ok.inj hwalk)
      exact Or.inl rfl
    · cases hwalk
  | cons segment rest ih =>
    obtain ⟨hsegment, hrest⟩ := List.forall_mem_cons.1 hplain
    rw [List.any_cons, Bool.or_eq_false_iff] at hclean
    rw [List.map_cons] at hwalk
    rcases hdirectory : S.disk.isDirectory place with - | -
    · rw [Disk.walk_of_not_isDirectory hdirectory] at hwalk
      cases hwalk
    rw [List.foldlM_cons]
    by_cases hup : segment = Path.parentName
    · rw [Step.ofSegment, if_pos hup, Disk.walk_up hdirectory] at hwalk
      rw [hup, step_parentName hdirectory]
      split
      · -- the walk went on from the root, the step does not
        exact Or.inr rfl
      · exact ih hplace.dropLast hrest hclean.2 hlinks hwalk
    · rw [Step.ofSegment, if_neg hup] at hwalk
      replace hwalk : S.disk.walk .use true links place
          ([.name segment] ++ rest.map Step.ofSegment) = .ok (.found q entry) := hwalk
      obtain ⟨mid, found, left, hleft, hfirst, hwalk⟩ := Disk.exists_parts_of_walk hwalk
      have hmid : S.disk.IsCanonical mid := hplace.walk_name hnames ⟨hsegment, hup⟩ hfirst
      have hstep : S.step place segment = .ok mid := by
        refine (step_name hplace ⟨hsegment, hup⟩ hdirectory).2 ⟨hclean.1, found, ?_⟩
        exact Disk.walk_of_le hlinks hfirst
      rw [hstep]
      exact ih hmid hrest hclean.2 (hleft.trans hlinks) hwalk

/-- **Where the steps lead, a walk ends**, with as many links as the steps follow together. -/
theorem exists_walk_of_foldlM_step (hnames : S.disk.Nameable) (hplace : S.disk.IsCanonical place)
    (hplain : ∀ segment ∈ segments, Path.Plain segment)
    (hsteps : segments.foldlM S.step place = .ok q) :
    segments.any Disk.hasNul = false ∧ ∃ links entry,
      S.disk.walk .use true links place (segments.map Step.ofSegment) = .ok (.found q entry) := by
  induction segments generalizing place with
  | nil =>
    obtain rfl := Except.ok.inj hsteps
    obtain ⟨entry, hentry, -⟩ := hplace.standing
    refine ⟨rfl, 0, entry, ?_⟩
    rw [List.map_nil, Disk.walk, hentry]
  | cons segment rest ih =>
    obtain ⟨hsegment, hrest⟩ := List.forall_mem_cons.1 hplain
    rw [List.foldlM_cons] at hsteps
    obtain ⟨mid, hstep, hsteps⟩ := bind_eq_ok.1 hsteps
    rcases hdirectory : S.disk.isDirectory place with - | -
    · exact absurd hstep (step_of_not_isDirectory hdirectory)
    -- a step up follows no link, and a step to a name at most as many as the system allows
    rw [List.map_cons, List.any_cons]
    by_cases hup : segment = Path.parentName
    · rw [hup, step_parentName hdirectory] at hstep
      split at hstep
      · cases hstep
      · obtain rfl := Except.ok.inj hstep
        obtain ⟨hclean, links, entry, hwalk⟩ := ih hplace.dropLast hrest hsteps
        refine ⟨by rw [hup, hclean]; decide, links, entry, ?_⟩
        rw [Step.ofSegment, if_pos hup, Disk.walk_up hdirectory]
        exact hwalk
    · obtain ⟨hnul, found, hfirst⟩ := (step_name hplace ⟨hsegment, hup⟩ hdirectory).1 hstep
      have hmid : S.disk.IsCanonical mid := hplace.walk_name hnames ⟨hsegment, hup⟩ hfirst
      obtain ⟨hclean, links, entry, hwalk⟩ := ih hmid hrest hsteps
      refine ⟨by rw [hnul, hclean]; rfl, Disk.mostLinks + links, entry, ?_⟩
      rw [Step.ofSegment, if_neg hup]
      show S.disk.walk .use true _ place ([.name segment] ++ rest.map Step.ofSegment) = _
      exact Disk.walk_of_parts hfirst hwalk

theorem foldlM_step_ne_aboveRoot (hsegments : Path.parentName ∉ segments) :
    segments.foldlM S.step place ≠ .error (.invalidPath .aboveRoot) := by
  intro hfails
  obtain ⟨segment, hsegment, mid, hstep⟩ := exists_of_foldlM_eq_error hfails
  exact step_ne_aboveRoot (ne_of_mem_of_not_mem hsegment hsegments) hstep

/-! ### Opening and resolving -/

/-- What a path resolves to is where its segments lead from the root. -/
theorem resolve_root (S : DiskStore) (p : Path) :
    FileStore.resolve Path.root p S = (p.segments.foldlM S.step []).map Place.path := by
  have hroot : S.place Path.root = .ok [] := place_path (Disk.isCanonical_root S.disk)
  show (S.place Path.root >>= fun start ↦ p.segments.foldlM S.step start >>= fun found ↦
    pure found.path) = _
  rw [hroot]
  show (p.segments.foldlM S.step [] >>= fun found ↦ pure found.path) = _
  rcases p.segments.foldlM S.step [] with e | q <;> rfl

theorem place_eq_ok (hp : p.absolute = true) : S.place p = .ok place ↔
    (∃ q, p.normalize = .ok q) ∧ S.disk.canonical S.cwd p.toOsText = .ok place := by
  rw [DiskStore.place, if_pos hp]
  rcases p.normalize with e | q
  · simp [bind, Except.bind]
  · show asked p.toOsText _ = _ ↔ _
    rw [asked_eq_ok]
    simp

/-- A path opens under the path of the place that it leads to, if a file stands there. -/
theorem openedPath_eq_ok (hfresh : S.handles.Fresh) : FileStore.openedPath p S = .ok r ↔
    ∃ place, S.place p = .ok place ∧ S.disk.isFile place = true ∧ Place.path place = r := by
  rw [FileStore.openedPath]
  rcases hopen : FileStore.openFile p S with e | ⟨handle, opened⟩
  · constructor
    · intro hfails
      cases hfails
    · rintro ⟨place, hplace, hfile, -⟩
      rw [openFile_eq_ok.2 ⟨place, hplace, hfile, rfl, rfl⟩] at hopen
      cases hopen
  · obtain ⟨-, hreal, -⟩ := of_openFile hfresh hopen
    obtain ⟨place, hplace, hfile, -, -⟩ := openFile_eq_ok.1 hopen
    rw [hplace] at hreal
    simp only [hreal, hplace, Except.map, Except.ok.injEq]
    constructor
    · rintro rfl
      exact ⟨place, rfl, hfile, rfl⟩
    · rintro ⟨_, rfl, -, rfl⟩
      rfl

/-- A path that leads nowhere does not open. -/
theorem openedPath_eq_error {e : Error} (h : S.place p = .error e) :
    FileStore.openedPath p S = .error e := by
  rw [FileStore.openedPath, openFile_eq_error.2 (Or.inl h)]

theorem resolve_ne_aboveRoot (hsegments : Path.parentName ∉ p.segments) :
    FileStore.resolve Path.root p S ≠ .error (.invalidPath .aboveRoot) := by
  rw [resolve_root]
  rcases hsteps : p.segments.foldlM S.step [] with e | q
  · intro hfails
    obtain rfl := Except.error.inj hfails
    exact foldlM_step_ne_aboveRoot hsegments hsteps
  · exact nofun

/-- **Where a file opens, its path resolves to it**, unless a step leaves the root. -/
theorem resolve_of_openedPath (hnames : S.disk.Nameable) (hfresh : S.handles.Fresh)
    (hp : p.absolute = true) (hplain : p.WellFormed) (hopen : FileStore.openedPath p S = .ok r) :
    FileStore.isFile r S = true ∧ (FileStore.resolve Path.root p S = .ok r ∨
      FileStore.resolve Path.root p S = .error (.invalidPath .aboveRoot)) := by
  have hroot := Disk.isCanonical_root S.disk
  obtain ⟨q, hplace, hfile, rfl⟩ := (openedPath_eq_ok hfresh).1 hopen
  obtain ⟨hclean, entry, hwalk⟩ :=
    (Disk.canonical_eq_ok hp hplain).1 ((place_eq_ok hp).1 hplace).2
  have hq : S.disk.IsCanonical q := hroot.walk_plain hnames hplain hwalk
  refine ⟨(isFile_path hq).trans hfile, ?_⟩
  rw [resolve_root]
  rcases foldlM_step_of_walk hnames hroot hplain hclean le_rfl hwalk with hsteps | hsteps
  · exact Or.inl (by rw [hsteps]; rfl)
  · exact Or.inr (by rw [hsteps]; rfl)

/-- **Where a path resolves to a file, the file opens**, unless the path reads as one that leaves
the root, or there are too many links on the way. -/
theorem openedPath_of_resolve (hnames : S.disk.Nameable) (hfresh : S.handles.Fresh)
    (hp : p.absolute = true) (hplain : p.WellFormed)
    (hresolve : FileStore.resolve Path.root p S = .ok r) (hfile : FileStore.isFile r S = true) :
    FileStore.openedPath p S = .ok r ∨
      p.normalize = .error (.invalidPath (.ascendsPastRoot p)) ∧
        FileStore.openedPath p S = .error (.invalidPath (.ascendsPastRoot p)) ∨
      FileStore.openedPath p S = .error (.io (.os .tooManyLinks)) := by
  have hroot := Disk.isCanonical_root S.disk
  rw [resolve_root] at hresolve
  rcases hsteps : p.segments.foldlM S.step [] with e | q
  · rw [hsteps] at hresolve
    cases hresolve
  rw [hsteps] at hresolve
  obtain rfl : Place.path q = r := Except.ok.inj hresolve
  obtain ⟨hclean, links, entry, hwalk⟩ := exists_walk_of_foldlM_step hnames hroot hplain hsteps
  have hq : S.disk.IsCanonical q := hroot.walk_plain hnames hplain hwalk
  rw [isFile_path hq] at hfile
  rcases hnormal : p.normalize with e | normal
  · -- the path reads as one that leaves the root, and the store does not ask the system at all
    obtain rfl : e = .invalidPath (.ascendsPastRoot p) := by
      rw [Path.normalize] at hnormal
      split at hnormal
      · cases hnormal
      · exact (Except.error.inj hnormal).symm
    refine Or.inr (Or.inl ⟨rfl, openedPath_eq_error ?_⟩)
    rw [DiskStore.place, if_pos hp, hnormal]
    rfl
  · rcases Disk.walk_mostLinks hwalk with hwhole | hspent
    · refine Or.inl ((openedPath_eq_ok hfresh).2 ⟨q, (place_eq_ok hp).2 ⟨⟨normal, hnormal⟩, ?_⟩,
        hfile, rfl⟩)
      exact (Disk.canonical_eq_ok hp hplain).2 ⟨hclean, entry, hwhole⟩
    · refine Or.inr (Or.inr (openedPath_eq_error ?_))
      rw [DiskStore.place, if_pos hp, hnormal]
      show asked p.toOsText (S.disk.canonical S.cwd p.toOsText) = _
      rw [Disk.canonical_toOsText hp hplain, Disk.hasNul_toOsText hp, hclean, hspent]
      rfl

/-- **A file opens where its path resolves**, unless a step leaves the root, or there are more links
on the way than the system follows. Of an absolute path

* that opens, the file is what the path resolves to, or the path does not resolve since a step would
  leave the root;
* that resolves to a file, the file is what the path opens, or the path reads as one that leaves the
  root, or the system is asked for more links than it follows.

Of a path without steps up, only the links are left as an exception. -/
theorem opens_as_resolved (S : DiskStore) (hnames : S.disk.Nameable) (hfresh : S.handles.Fresh)
    (p : Path) (habsolute : p.absolute = true) (hplain : p.WellFormed) :
    (∀ r, FileStore.openedPath p S = .ok r → FileStore.isFile r S = true ∧
      (FileStore.resolve Path.root p S = .ok r ∨
        FileStore.resolve Path.root p S = .error (.invalidPath .aboveRoot))) ∧
    (∀ r, FileStore.resolve Path.root p S = .ok r → FileStore.isFile r S = true →
      FileStore.openedPath p S = .ok r ∨
      p.normalize = .error (.invalidPath (.ascendsPastRoot p)) ∧
        FileStore.openedPath p S = .error (.invalidPath (.ascendsPastRoot p)) ∨
      FileStore.openedPath p S = .error (.io (.os .tooManyLinks))) ∧
    (Path.parentName ∉ p.segments → FileStore.openedPath p S ≠ .error (.io (.os .tooManyLinks)) →
      ∀ r, FileStore.openedPath p S = .ok r ↔
        FileStore.resolve Path.root p S = .ok r ∧ FileStore.isFile r S = true) := by
  refine ⟨fun r hopen ↦ resolve_of_openedPath hnames hfresh habsolute hplain hopen,
    fun r hresolve hfile ↦ openedPath_of_resolve hnames hfresh habsolute hplain hresolve hfile,
    fun hsegments hlinks r ↦ ⟨fun hopen ↦ ?_, fun ⟨hresolve, hfile⟩ ↦ ?_⟩⟩
  · obtain ⟨hfile, hresolve | habove⟩ :=
      resolve_of_openedPath hnames hfresh habsolute hplain hopen
    · exact ⟨hresolve, hfile⟩
    · exact absurd habove (resolve_ne_aboveRoot hsegments)
  · rcases openedPath_of_resolve hnames hfresh habsolute hplain hresolve hfile with
      hopen | ⟨hnormal, -⟩ | hspent
    · exact hopen
    · rw [Path.normalize, Path.climb_of_not_mem hsegments] at hnormal
      cases hnormal
    · exact absurd hspent hlinks

/-! ### Links that lead up and down -/

/-- A file at the root, a link to the root, and one to a directory further down. -/
def upwardDisk : DiskStore :=
  { disk := ⟨[(["a"], .directory), (["a", "b"], .directory), (["f"], .file []),
      (["top"], .link "/"), (["deep"], .link "a/b")]⟩, cwd := [] }

/-- The one link leads to the root. -/
theorem walk_top_upwardDisk (rest : List Step) :
    upwardDisk.disk.walk .use true Disk.mostLinks [] (.name "top" :: rest) =
      upwardDisk.disk.walk .use true 39 [] rest := by
  have hlink : upwardDisk.disk.entry? ([] ++ ["top"]) = some (.link "/") := rfl
  have htarget : Step.ofText "/" = [.slash] := by decide
  rw [Disk.mostLinks, Disk.walk_link rfl (by decide) hlink, htarget]
  exact Disk.walk_slash rfl

theorem isCanonical_upwardDisk :
    upwardDisk.disk.IsCanonical ["a", "b"] ∧ upwardDisk.disk.IsCanonical ["f"] := by
  have hroot := Disk.isCanonical_root upwardDisk.disk
  have ha : upwardDisk.disk.IsCanonical ["a"] :=
    hroot.concat rfl (by decide) (by decide) (by decide) rfl nofun
  exact ⟨ha.concat rfl (by decide) (by decide) (by decide) rfl nofun,
    hroot.concat rfl (by decide) (by decide) (by decide) rfl nofun⟩

/-- The other link leads to the directory. -/
theorem step_deep_upwardDisk : upwardDisk.step [] "deep" = .ok ["a", "b"] := by
  have hlink : upwardDisk.disk.entry? ([] ++ ["deep"]) = some (.link "a/b") := rfl
  have htarget : Step.ofText "a/b" = ["a", "b"].map Step.ofSegment := by decide
  have hstart : Step.start [] "a/b" = [] := by decide
  have hwalk : upwardDisk.disk.walk .use true Disk.mostLinks [] [.name "deep"] =
      .ok (.found ["a", "b"] .directory) := by
    rw [Disk.mostLinks, Disk.walk_link rfl (by decide) hlink, hstart, htarget, List.append_nil]
    exact isCanonical_upwardDisk.1.walk_segments rfl true 39
  exact (step_name (Disk.isCanonical_root _) (by decide) rfl).2 ⟨by decide, _, hwalk⟩

theorem walk_file_upwardDisk (links : Nat) :
    upwardDisk.disk.walk .use true links [] [.name "f"] = .ok (.found ["f"] (.file [])) := by
  have hnames : upwardDisk.disk.walk .use true links [] (["f"].map Step.ofSegment) =
      .ok (.found ["f"] (.file [])) := isCanonical_upwardDisk.2.walk_segments rfl true links
  exact hnames

/-- **Opening and resolving come apart at the root.** A path that goes through the root and up again
opens a file and does not resolve; and a path that goes up from where a link led to resolves to the
file and does not open. -/
theorem not_opens_as_resolved_upwardDisk :
    upwardDisk.disk.Nameable ∧ upwardDisk.handles.Fresh ∧
    (FileStore.openedPath ⟨true, ["top", "..", "f"]⟩ upwardDisk = .ok ⟨true, ["f"]⟩ ∧
      FileStore.resolve Path.root ⟨true, ["top", "..", "f"]⟩ upwardDisk =
        .error (.invalidPath .aboveRoot)) ∧
    FileStore.resolve Path.root ⟨true, ["deep", "..", "..", "f"]⟩ upwardDisk =
        .ok ⟨true, ["f"]⟩ ∧
      FileStore.isFile ⟨true, ["f"]⟩ upwardDisk = true ∧
      FileStore.openedPath ⟨true, ["deep", "..", "..", "f"]⟩ upwardDisk =
        .error (.invalidPath (.ascendsPastRoot ⟨true, ["deep", "..", "..", "f"]⟩)) := by
  have hfresh : upwardDisk.handles.Fresh := nofun
  have hroot := Disk.isCanonical_root upwardDisk.disk
  have hfile : upwardDisk.step [] "f" = .ok ["f"] :=
    (step_name hroot (by decide) rfl).2 ⟨by decide, _, walk_file_upwardDisk _⟩
  have htop : upwardDisk.step [] "top" = .ok [] := by
    refine (step_name hroot (by decide) rfl).2 ⟨by decide, .directory, ?_⟩
    rw [walk_top_upwardDisk, Disk.walk]
    rfl
  refine ⟨by decide, hfresh, ⟨?_, ?_⟩, ?_, ?_, ?_⟩
  · have hwalk : upwardDisk.disk.walk .use true Disk.mostLinks []
        (["top", "..", "f"].map Step.ofSegment) = .ok (.found ["f"] (.file [])) :=
      (walk_top_upwardDisk _).trans ((Disk.walk_up rfl).trans (walk_file_upwardDisk _))
    refine (openedPath_eq_ok hfresh).2 ⟨["f"], (place_eq_ok rfl).2 ⟨⟨⟨true, ["f"]⟩, rfl⟩, ?_⟩,
      rfl, rfl⟩
    exact (Disk.canonical_eq_ok rfl (by decide)).2 ⟨by decide, _, hwalk⟩
  · rw [resolve_root]
    show ((upwardDisk.step [] "top" >>= fun q ↦ upwardDisk.step q ".." >>= fun q ↦
      upwardDisk.step q "f" >>= pure).map Place.path) = _
    rw [htop]
    rfl
  · rw [resolve_root]
    show ((upwardDisk.step [] "deep" >>= fun q ↦ upwardDisk.step q ".." >>= fun q ↦
      upwardDisk.step q ".." >>= fun q ↦ upwardDisk.step q "f" >>= pure).map Place.path) = _
    rw [step_deep_upwardDisk]
    show ((upwardDisk.step [] "f" >>= pure).map Place.path) = _
    rw [hfile]
    rfl
  · exact isFile_path isCanonical_upwardDisk.2
  · exact openedPath_eq_error rfl

/-- By way of the link to the root, the file opens and resolves alike. -/
theorem opens_as_resolved_upwardDisk :
    upwardDisk.disk.Nameable ∧ upwardDisk.handles.Fresh ∧
    FileStore.openedPath ⟨true, ["top", "f"]⟩ upwardDisk = .ok ⟨true, ["f"]⟩ ∧
    FileStore.resolve Path.root ⟨true, ["top", "f"]⟩ upwardDisk = .ok ⟨true, ["f"]⟩ ∧
    FileStore.isFile ⟨true, ["f"]⟩ upwardDisk = true := by
  have hnames : upwardDisk.disk.Nameable := by decide
  have hfresh : upwardDisk.handles.Fresh := nofun
  have hopen : FileStore.openedPath ⟨true, ["top", "f"]⟩ upwardDisk = .ok ⟨true, ["f"]⟩ := by
    have hwalk : upwardDisk.disk.walk .use true Disk.mostLinks []
        (["top", "f"].map Step.ofSegment) = .ok (.found ["f"] (.file [])) :=
      (walk_top_upwardDisk _).trans (walk_file_upwardDisk _)
    refine (openedPath_eq_ok hfresh).2 ⟨["f"], (place_eq_ok rfl).2 ⟨⟨⟨true, ["top", "f"]⟩, rfl⟩,
      ?_⟩, rfl, rfl⟩
    exact (Disk.canonical_eq_ok rfl (by decide)).2 ⟨by decide, _, hwalk⟩
  obtain ⟨-, -, hagree⟩ :=
    opens_as_resolved upwardDisk hnames hfresh ⟨true, ["top", "f"]⟩ rfl (by decide)
  have hspent : FileStore.openedPath ⟨true, ["top", "f"]⟩ upwardDisk ≠
      .error (.io (.os .tooManyLinks)) := by
    rw [hopen]
    exact nofun
  exact ⟨hnames, hfresh, hopen, (hagree (by decide) hspent _).1 hopen⟩

end DiskStore

end ModuleBundler
