import ModuleBundler.Proofs.Disk.Calls
import ModuleBundler.Proofs.Store.Alike
import ModuleBundler.Store.OnDisk

/-!
# Reading from a disk

A store on a disk answers from the disk, whatever files are open (`DiskStore.skip`). On a disk
without links its answers are those of the catalog: to where a path leads (`DiskStore.place_meets`),
to what resolves (`DiskStore.resolve_meets`), and to what is in a file (`DiskStore.content_meets`).
Asked of the paths is that the system takes them, and of the path that is resolved, that the
directory and the request are taken together.

The store refuses an absolute path that leads above the root, where the system would stay at the
root. What is left are paths without steps up from the root, and of these the system and the catalog
are of one mind.
-/

namespace ModuleBundler.DiskStore

variable {S opened : DiskStore} {m : Catalog} {place : Place} {path p q context relative : Path}
  {segment : String} {segments rest : List String} {handle : Handle} {ending : Ending}
  {whole : Bool} {links : Nat}

/-! ### Open files do not matter -/

/-- The store after `n` handles were given out and taken back. -/
def skip (S : DiskStore) (n : Nat) : DiskStore :=
  { S with handles := { S.handles with next := S.handles.next + n } }

theorem skip_skip (S : DiskStore) (n k : Nat) : (S.skip n).skip k = S.skip (n + k) := by
  simp only [skip, Nat.add_assoc]

theorem fresh_skip (h : S.handles.Fresh) (n : Nat) : (S.skip n).handles.Fresh :=
  fun entry hentry ↦ Nat.lt_of_lt_of_le (h entry hentry) (Nat.le_add_right _ _)

/-- What is in the file that a path leads to. -/
def content (path : Path) (S : DiskStore) : Except Error Bytes := do
  let target ← S.place path
  if S.disk.isFile target then served (S.disk.contentAt S.cwd target.text)
  else invalid (.notFile target.text)

theorem content_skip (n : Nat) : (S.skip n).content path = S.content path :=
  rfl

/-- A file opens where the path leads to one. -/
theorem openFile_eq_ok : FileStore.openFile path S = .ok (handle, opened) ↔
    ∃ place, S.place path = .ok place ∧ S.disk.isFile place = true ∧
      (S.handles.insert ⟨place, place.path⟩).1 = handle ∧
      { S with handles := (S.handles.insert ⟨place, place.path⟩).2 } = opened := by
  show S.openFile path = _ ↔ _
  rw [openFile, bind_eq_ok]
  refine exists_congr fun place ↦ and_congr_right fun _ ↦ ?_
  by_cases hfile : S.disk.isFile place = true
  · simp [hfile, pure, Except.pure]
  · simp [hfile, invalid]

theorem openFile_eq_error {e : Error} : FileStore.openFile path S = .error e ↔
    S.place path = .error e ∨ ∃ place, S.place path = .ok place ∧ S.disk.isFile place = false ∧
      e = .invalidPath (.notFile place.text) := by
  show S.openFile path = _ ↔ _
  rw [openFile, bind_eq_error]
  refine or_congr_right (exists_congr fun place ↦ and_congr_right fun _ ↦ ?_)
  by_cases hfile : S.disk.isFile place = true
  · simp [hfile, pure, Except.pure]
  · simp [hfile, invalid, eq_comm]

/-- An open file can be read and closed again. -/
theorem of_openFile (h : S.handles.Fresh)
    (hopen : FileStore.openFile path S = .ok (handle, opened)) :
    FileStore.read handle opened = S.content path ∧
      FileStore.realPath handle opened = (S.place path).map Place.path ∧
      FileStore.close handle opened = .ok (S.skip 1) := by
  obtain ⟨place, hplace, hfile, rfl, rfl⟩ := openFile_eq_ok.1 hopen
  have hget := h.get_insert ⟨place, place.path⟩
  refine ⟨?_, ?_, ?_⟩
  · have hcontent : S.content path = served (S.disk.contentAt S.cwd place.text) := by
      rw [content, hplace]
      exact if_pos hfile
    rw [hcontent]
    show (HandleTable.get _ _ >>= _) = _
    rw [hget]
    rfl
  · rw [hplace]
    exact bind_eq_ok.2 ⟨_, hget, rfl⟩
  · exact bind_eq_ok.2 ⟨_, h.close_insert _, rfl⟩

/-- **Reading a file** answers what is in it, and uses up a number at most. -/
theorem load_eq (h : S.handles.Fresh) (path : Path) :
    ∃ n, FileStore.load path S = (S.content path, S.skip n) := by
  rw [FileStore.load]
  rcases hopen : FileStore.openFile path S with e | ⟨handle, opened⟩
  · refine ⟨0, Prod.ext ?_ rfl⟩
    rcases openFile_eq_error.1 hopen with hplace | ⟨place, hplace, hfile, rfl⟩
    · exact (bind_eq_error.2 (Or.inl hplace)).symm
    · refine (bind_eq_error.2 (Or.inr ⟨place, hplace, ?_⟩)).symm
      rw [hfile, if_neg Bool.false_ne_true]
      rfl
  · obtain ⟨hread, -, hclose⟩ := of_openFile h hopen
    simp only [hclose, hread]
    exact ⟨1, rfl⟩

/-! ### Where paths lead -/

/-- What the system finds, the store answers; what it does not find is an invalid path. -/
theorem meets_asked {answer : Except OsFault Place} {expected : Option Path} (shown : String)
    (h : Disk.Finds answer expected) : Meets (asked shown answer) (expected.map Path.segments) := by
  rcases expected with - | q
  · rcases h with rfl | rfl <;> exact ⟨_, rfl⟩
  · obtain rfl : answer = .ok q.segments := h
    rfl

theorem asked_eq_ok {α : Type} {shown : String} {answer : Except OsFault α} {a : α} :
    asked shown answer = .ok a ↔ answer = .ok a := by
  rcases answer with fault | a' <;> simp [asked]

/-- Where a path leads, the system says. -/
theorem canonical_of_place (hplace : S.place p = .ok place) :
    S.disk.canonical S.cwd p.toOsText = .ok place := by
  rw [DiskStore.place] at hplace
  split at hplace
  · obtain ⟨-, -, hasked⟩ := bind_eq_ok.1 hplace
    exact asked_eq_ok.1 hasked
  · exact asked_eq_ok.1 hplace

/-- **A path leads to what it denotes.** -/
theorem place_meets (h : S.disk.Mirrors m) (hm : m.IsTree) (hp : p.absolute = true)
    (hplain : p.WellFormed) (htakes : S.disk.Takes p) :
    Meets (S.place p) ((m.denoted? p).map Path.segments) := by
  have hplace : S.place p = p.normalize >>= fun _ ↦
      asked p.toOsText (S.disk.canonical S.cwd p.toOsText) := by
    rw [place, if_pos hp]
  obtain ⟨absolute, segments⟩ := p
  obtain rfl : absolute = true := hp
  rw [hplace]
  rcases hnormalize : Path.normalize ⟨true, segments⟩ with e | left
  · -- the store refuses what denotes nothing
    have hnone : m.denoted? ⟨true, segments⟩ = none := by
      refine Option.eq_none_iff_forall_ne_some.2 fun q hq ↦ ?_
      have hreads := Catalog.normalize_of_denoted? hq
      rw [hnormalize] at hreads
      cases hreads
    obtain ⟨cause, rfl⟩ := Path.normalize_eq_error hnormalize
    rw [hnone]
    exact ⟨cause, rfl⟩
  · have hground := Path.grounded_of_normalize rfl hnormalize
    have hfinds := Disk.canonical_finds S.cwd h hm rfl hplain htakes
    rw [hground] at hfinds
    exact meets_asked _ hfinds

/-- Where a path leads, the path fits. -/
theorem fits_of_place (h : S.disk.Mirrors m) (hp : p.absolute = true) (hplain : p.WellFormed)
    (hplace : S.place p = .ok place) : (Place.path place).Fits :=
  Disk.fits_of_canonical h hp hplain (canonical_of_place hplace)

/-- One step of a resolving store is one step through the catalog. -/
theorem step_meets (h : S.disk.Mirrors m) (hm : m.IsTree) (hfits : (Place.path place).Fits)
    (hplain : Path.Plain segment) (hnul : Disk.hasNul segment = false)
    (hshort : segment ≠ Path.parentName → m place.path = some .directory →
      Disk.isTooLong true place segment = false) :
    Meets (S.step place segment) ((m.step place.path segment).map Path.segments) := by
  by_cases hdirectory : m place.path = some .directory
  · have hstands := h.isDirectory_iff.2 hdirectory
    by_cases hname : segment = Path.parentName
    · have hempty : place.isEmpty = true ↔ place.path.segments = [] := List.isEmpty_iff
      rw [step, if_pos hname, Catalog.step, if_pos hdirectory, if_pos hname, hstands]
      by_cases hroot : place.isEmpty = true
      · rw [if_pos hroot, if_pos (hempty.1 hroot)]
        exact ⟨_, rfl⟩
      · rw [if_neg hroot, if_neg (mt hempty.2 hroot)]
        rfl
    · have hbelow := Disk.canonical_below S.cwd h hm hdirectory hfits hplain hname hnul
        (hshort hname hdirectory)
      rw [step, if_neg hname, hstands]
      exact meets_asked _ hbelow
  · have hstands : S.disk.isDirectory place = false :=
      Bool.eq_false_iff.2 (mt h.isDirectory_iff.1 hdirectory)
    rw [step, Catalog.step, if_neg hdirectory, hstands]
    split <;> exact ⟨_, rfl⟩

/-- A name that a walk takes is not too long. -/
theorem isTooLong_of_walk {d : Disk} (h : d.Mirrors m) (hdirectory : m place.path = some .directory)
    (hname : segment ≠ Path.parentName)
    (hshort : d.walk ending whole links place ((segment :: rest).map Step.ofSegment) ≠
      .error .nameTooLong) : Disk.isTooLong whole place segment = false := by
  refine Bool.eq_false_iff.2 fun hlong ↦ hshort ?_
  rw [List.map_cons, Step.ofSegment, if_neg hname,
    Disk.walk_name h (h.isDirectory_iff.2 hdirectory) (Disk.map_ofSegment_ne_slash rest),
    if_pos hlong]

/-- Where a step can be taken, a walk takes it. -/
theorem walk_of_step {d : Disk} (h : d.Mirrors m) (hstep : m.step place.path segment = some q)
    (hshort : d.walk .use whole links place ((segment :: rest).map Step.ofSegment) ≠
      .error .nameTooLong) :
    d.walk .use whole links place ((segment :: rest).map Step.ofSegment) =
      d.walk .use whole links q.segments (rest.map Step.ofSegment) := by
  obtain ⟨hdirectory, hnext, hexists⟩ := Catalog.step_eq_some.1 hstep
  have hstands := h.isDirectory_iff.2 hdirectory
  by_cases hname : segment = Path.parentName
  · rw [Path.next?, if_pos hname] at hnext
    split at hnext
    · cases hnext
    · obtain rfl := Option.some.inj hnext
      rw [List.map_cons, Step.ofSegment, if_pos hname, Disk.walk_up hstands]
      rfl
  · have hlong := isTooLong_of_walk h hdirectory hname hshort
    rw [Path.next?_of_ne hname] at hnext
    obtain rfl := Option.some.inj hnext
    have hbelow : m (place.path.below segment) ≠ none := hexists.resolve_left hname
    rw [List.map_cons, Step.ofSegment, if_neg hname,
      Disk.walk_name h hstands (Disk.map_ofSegment_ne_slash rest), hlong,
      if_neg Bool.false_ne_true, if_neg hbelow]
    rfl

/-- Where a step leads from a place that fits, the path fits. -/
theorem fits_of_step (hfits : (Place.path place).Fits) (hnul : Disk.hasNul segment = false)
    (hshort : segment ≠ Path.parentName → m place.path = some .directory →
      Disk.isTooLong true place segment = false)
    (hstep : m.step place.path segment = some q) : (Place.path q.segments).Fits := by
  obtain ⟨hdirectory, hnext, -⟩ := Catalog.step_eq_some.1 hstep
  by_cases hname : segment = Path.parentName
  · rw [Path.next?, if_pos hname] at hnext
    split at hnext
    · cases hnext
    · obtain rfl := Option.some.inj hnext
      exact Disk.fits_dropLast hfits
  · rw [Path.next?_of_ne hname] at hnext
    obtain rfl := Option.some.inj hnext
    exact Disk.fits_concat hfits hnul (hshort hname hdirectory)

/-- Step by step, the store goes along segments as the catalog does. -/
theorem foldlM_step_meets (h : S.disk.Mirrors m) (hm : m.IsTree) (hfits : (Place.path place).Fits)
    (hplain : ∀ segment ∈ segments, Path.Plain segment)
    (hnul : ∀ segment ∈ segments, Disk.hasNul segment = false)
    (hshort : S.disk.walk .use true links place (segments.map Step.ofSegment) ≠
      .error .nameTooLong) :
    Meets (segments.foldlM S.step place)
      ((segments.foldlM m.step place.path).map Path.segments) := by
  induction segments generalizing place with
  | nil => rfl
  | cons segment rest ih =>
    have hshort' : segment ≠ Path.parentName → m place.path = some .directory →
        Disk.isTooLong true place segment = false :=
      fun hname hdirectory ↦ isTooLong_of_walk h hdirectory hname hshort
    have hnul' := hnul segment List.mem_cons_self
    have hmeets := step_meets h hm hfits (hplain segment List.mem_cons_self) hnul' hshort'
    rw [List.foldlM_cons, List.foldlM_cons]
    rcases hstep : m.step place.path segment with - | q
    · rw [hstep] at hmeets
      obtain ⟨cause, hcause⟩ := hmeets
      rw [hcause]
      exact ⟨cause, rfl⟩
    · rw [hstep] at hmeets
      have hnext : S.step place segment = .ok q.segments := hmeets
      have hpath : q = Place.path q.segments := by
        obtain ⟨-, hq, -⟩ := Catalog.step_eq_some.1 hstep
        rw [Path.next?] at hq
        split at hq
        · split at hq
          · cases hq
          · exact Option.some.inj hq ▸ rfl
        · exact Option.some.inj hq ▸ rfl
      rw [walk_of_step h hstep hshort] at hshort
      have hrest := ih (fits_of_step hfits hnul' hshort' hstep)
        (fun next hmem ↦ hplain next (List.mem_cons_of_mem _ hmem))
        (fun next hmem ↦ hnul next (List.mem_cons_of_mem _ hmem)) hshort
      rw [← hpath] at hrest
      rw [hnext]
      exact hrest

/-- **A request resolves to what the directory and the request denote together.** -/
theorem resolve_meets (h : S.disk.Mirrors m) (hm : m.IsTree) (hcontext : context.absolute = true)
    (hplain : Path.WellFormed ⟨true, context.segments ++ relative.segments⟩)
    (htakes : S.disk.Takes ⟨true, context.segments ++ relative.segments⟩) :
    Meets (FileStore.resolve context relative S)
      (m.denoted? ⟨true, context.segments ++ relative.segments⟩) := by
  obtain ⟨absolute, front⟩ := context
  obtain rfl : absolute = true := hcontext
  have hfront : Path.WellFormed ⟨true, front⟩ :=
    fun segment hsegment ↦ hplain segment (List.mem_append_left _ hsegment)
  have hplace := place_meets h hm rfl hfront (htakes.front h hm hplain)
  have hresolve : FileStore.resolve ⟨true, front⟩ relative S =
      S.place ⟨true, front⟩ >>= fun start ↦
        relative.segments.foldlM S.step start >>= fun found ↦ .ok found.path := rfl
  have hdenoted : m.denoted? ⟨true, front ++ relative.segments⟩ =
      (m.denoted? ⟨true, front⟩).bind (relative.segments.foldlM m.step) := List.foldlM_append
  rw [hresolve, hdenoted]
  -- the directory is found by the system, and from there on the store goes segment by segment
  rcases hstart : m.denoted? ⟨true, front⟩ with - | q
  · rw [hstart] at hplace
    obtain ⟨cause, hcause⟩ := hplace
    rw [hcause]
    exact ⟨cause, rfl⟩
  · rw [hstart] at hplace
    have hplace' : S.place ⟨true, front⟩ = .ok q.segments := hplace
    have hpath : Place.path q.segments = q := hm.path_segments (hm.ne_none_of_denoted? hstart)
    have hnul := ((Disk.takes_iff h hm rfl hplain).1 htakes).1
    rw [Disk.hasNul_toOsText rfl, List.any_append, Bool.or_eq_false_iff, List.any_eq_false,
      List.any_eq_false] at hnul
    have hrest := foldlM_step_meets h hm (fits_of_place h rfl hfront hplace')
      (fun segment hsegment ↦ hplain segment (List.mem_append_right _ hsegment))
      (fun segment hsegment ↦ Bool.eq_false_iff.2 (hnul.2 segment hsegment))
      (htakes.walk_rest h hm hplain hstart)
    rw [hpath] at hrest
    rw [hplace', Option.bind_some]
    show Meets (relative.segments.foldlM S.step q.segments >>= fun found ↦ .ok found.path) _
    rcases hfound : relative.segments.foldlM m.step q with - | found
    · rw [hfound] at hrest
      obtain ⟨cause, hcause⟩ := hrest
      rw [hcause]
      exact ⟨cause, rfl⟩
    · rw [hfound] at hrest
      have hdone : relative.segments.foldlM S.step q.segments = .ok found.segments := hrest
      have hexists := hm.ne_none_of_denoted? (p := ⟨true, front ++ relative.segments⟩) <| by
        rw [hdenoted, hstart, Option.bind_some, hfound]
      rw [hdone]
      exact congrArg Except.ok (hm.path_segments hexists)

/-! ### Files -/

/-- Whether a file stands at a place that fits. -/
theorem isFile_eq (h : S.disk.Mirrors m) (hm : m.IsTree) (hp : p.absolute = true)
    (hplain : p.WellFormed) (hfits : p.Fits) :
    FileStore.isFile p S = (m.read p.grounded).isSome := by
  have hlands := Disk.reach_lands S.cwd h hm hp hplain hfits
  show ((S.disk.look? S.cwd p.toOsText).any DiskEntry.isFile) = _
  rw [Disk.look?, Catalog.read]
  rcases hdenoted : m.denoted? p.grounded with - | q
  · rw [hdenoted] at hlands
    rcases hlands with hfault | hfault <;> rw [hfault] <;> rfl
  · rw [hdenoted] at hlands
    obtain ⟨entry, hentry, hfound⟩ := hlands
    rw [hfound, Option.bind_some, hentry]
    cases entry <;> rfl

/-- Whether a file stands where something does. -/
theorem isFile_self (h : S.disk.Mirrors m) (hm : m.IsTree) (hq : m q ≠ none) (hfits : q.Fits) :
    FileStore.isFile q S = m.hasFile q := by
  have habsolute := Path.absolute_of_isCanonical (hm.canonical hq)
  rw [isFile_eq h hm habsolute (hm.wellFormed hq) hfits, hm.grounded_eq hq, Catalog.read,
    hm.denoted?_self hq, Option.bind_some, Catalog.hasFile]
  rcases m q with - | - | data <;> rfl

/-- What is in the file that stands at a place that fits. -/
theorem contentAt_self (h : S.disk.Mirrors m) (hm : m.IsTree) {data : Bytes}
    (hq : m (Place.path place) = some (.file data)) (hfits : (Place.path place).Fits) :
    S.disk.contentAt S.cwd place.text = .ok data := by
  have hexists : m (Place.path place) ≠ none := hq ▸ Option.some_ne_none _
  have hlands := Disk.reach_lands S.cwd h hm rfl (hm.wellFormed hexists) hfits
  rw [hm.grounded_eq hexists, hm.denoted?_self hexists] at hlands
  obtain ⟨entry, hentry, hfound⟩ := hlands
  obtain rfl := Option.some.inj (hq.symm.trans hentry)
  rw [Disk.contentAt, Place.text, hfound]
  rfl

/-- **What is in a file** is what the catalog has for it. -/
theorem content_meets (h : S.disk.Mirrors m) (hm : m.IsTree) (hp : p.absolute = true)
    (hplain : p.WellFormed) (htakes : S.disk.Takes p) : Meets (S.content p) (m.read p) := by
  have hplace := place_meets h hm hp hplain htakes
  rw [content, Catalog.read]
  rcases hdenoted : m.denoted? p with - | q
  · rw [hdenoted] at hplace
    obtain ⟨cause, hcause⟩ := hplace
    rw [hcause]
    exact ⟨cause, rfl⟩
  · rw [hdenoted] at hplace
    have hplace' : S.place p = .ok q.segments := hplace
    have hexists := hm.ne_none_of_denoted? hdenoted
    have hpath : Place.path q.segments = q := hm.path_segments hexists
    have hfits := fits_of_place h hp hplain hplace'
    rw [hplace', Option.bind_some]
    show Meets (if S.disk.isFile q.segments then _ else _) _
    rw [h.isFile_eq, hpath, Catalog.hasFile]
    rcases hentry : m q with - | - | data
    · exact absurd hentry hexists
    · exact ⟨_, rfl⟩
    · have hdata := contentAt_self h hm (hpath ▸ hentry) hfits
      simp only [Option.any_some, Entry.isFile, if_true, hdata]
      rfl

/-- A file is opened under the path of what the path denotes. -/
theorem openedPath_meets (h : S.disk.Mirrors m) (hm : m.IsTree) (hfresh : S.handles.Fresh)
    (hp : p.absolute = true) (hplain : p.WellFormed) (htakes : S.disk.Takes p) :
    Meets (FileStore.openedPath p S) ((m.denoted? p).filter m.hasFile) := by
  have hopened : FileStore.openedPath p S = S.place p >>= fun place ↦
      if S.disk.isFile place then .ok place.path else invalid (.notFile place.text) := by
    rw [FileStore.openedPath]
    rcases hopen : FileStore.openFile p S with e | ⟨handle, opened⟩
    · rcases openFile_eq_error.1 hopen with hplace | ⟨place, hplace, hfile, rfl⟩
      · rw [hplace]
        rfl
      · exact (bind_eq_error.2 (Or.inr ⟨place, hplace, by rw [hfile]; rfl⟩)).symm
    · obtain ⟨place, hplace, hfile, -, -⟩ := openFile_eq_ok.1 hopen
      obtain ⟨-, hreal, -⟩ := of_openFile hfresh hopen
      simp only [hreal, hplace]
      exact (if_pos hfile).symm
  have hmeets := place_meets h hm hp hplain htakes
  rw [hopened]
  rcases hdenoted : m.denoted? p with - | q
  · rw [hdenoted] at hmeets
    obtain ⟨cause, hcause⟩ := hmeets
    rw [hcause]
    exact ⟨cause, rfl⟩
  · rw [hdenoted] at hmeets
    have hplace : S.place p = .ok q.segments := hmeets
    have hpath := hm.path_segments (hm.ne_none_of_denoted? hdenoted)
    rw [hplace]
    show Meets (if S.disk.isFile q.segments then _ else _) _
    rw [h.isFile_eq, hpath]
    cases hfile : m.hasFile q with
    | true =>
      rw [Option.filter_eq_some_iff.2 ⟨rfl, hfile⟩]
      rfl
    | false =>
      rw [Option.filter_eq_none_iff.2 (by simp [hfile])]
      exact ⟨_, rfl⟩

/-! ### Files that requests lead to -/

/-- Where a path leads, something stands, whatever the path is like. -/
theorem ne_none_of_place (h : S.disk.Mirrors m) (hplace : S.place p = .ok place) :
    m place.path ≠ none :=
  mt h.entry?_eq_none.2 (Disk.entry?_of_canonical (canonical_of_place hplace))

/-- A step leads to something, whatever the segment is like. -/
theorem ne_none_of_step (h : S.disk.Mirrors m) (hm : m.IsTree) {next : Place}
    (hstep : S.step place segment = .ok next) : m next.path ≠ none := by
  rw [step] at hstep
  split at hstep
  case isTrue hup =>
    split at hstep
    case isTrue => cases hstep
    case isFalse hstands =>
      have hdirectory : m place.path = some .directory :=
        h.isDirectory_iff.1 (by simpa using hstands)
      split at hstep
      case isTrue => cases hstep
      case isFalse =>
        obtain rfl := Except.ok.inj hstep
        exact hm.directory_above hdirectory ▸ Option.some_ne_none _
  case isFalse hname =>
    split at hstep
    case isTrue => cases hstep
    case isFalse =>
      exact mt h.entry?_eq_none.2 (Disk.entry?_of_canonical (asked_eq_ok.1 hstep))

/-- What a request resolves to is there, whatever the request is like. -/
theorem exists_place_of_resolve (h : S.disk.Mirrors m) (hm : m.IsTree)
    (hresolve : FileStore.resolve context relative S = .ok q) :
    ∃ place, Place.path place = q ∧ m q ≠ none := by
  obtain ⟨start, hstart, hrest⟩ := bind_eq_ok.1 hresolve
  obtain ⟨found, hfound, hq⟩ := bind_eq_ok.1 hrest
  obtain rfl : found.path = q := Except.ok.inj hq
  refine ⟨found, rfl, ?_⟩
  exact foldlM_keeps (P := fun place : Place ↦ m place.path ≠ none)
    (fun _ hstep ↦ ne_none_of_step h hm hstep) (ne_none_of_place h hstart) hfound

/-- What is said to be a file, by the path of a place where something stands, is a file. -/
theorem isFile_of_isFile (h : S.disk.Mirrors m) (hm : m.IsTree) (hexists : m place.path ≠ none)
    (hfile : FileStore.isFile place.path S = true) : S.disk.isFile place = true := by
  obtain ⟨entry, hlook, hentry⟩ := (Option.any_eq_true _ _).1 hfile
  rw [Disk.look?] at hlook
  rcases hreach : S.disk.reach S.cwd (Path.toOsText place.path) .use with
    fault | ⟨q, found⟩ | ⟨directory, name⟩
  · rw [hreach] at hlook
    cases hlook
  · rw [hreach] at hlook
    obtain rfl : found = entry := Option.some.inj hlook
    have hwalk := Disk.walk_of_reach rfl (hm.wellFormed hexists) hreach
    have hroot : m (Place.path []) ≠ none := hm.root ▸ Option.some_ne_none _
    have hshort : S.disk.walk .use false Disk.mostLinks []
        (place.path.segments.map Step.ofSegment) ≠ .error .nameTooLong := by
      rw [hwalk]
      exact nofun
    have hlands : Disk.Lands m _ (m.denoted? place.path.grounded) :=
      Disk.walk_lands h hm hroot hshort
    rw [hm.grounded_eq hexists, hm.denoted?_self hexists] at hlands
    obtain ⟨standing, hstanding, hfound⟩ := hlands
    obtain ⟨-, rfl⟩ := Landing.found.inj (Except.ok.inj (hwalk.symm.trans hfound))
    rw [Disk.isFile, h place, hstanding]
    exact hentry
  · rw [hreach] at hlook
    cases hlook

end ModuleBundler.DiskStore
