import ModuleBundler.Proofs.Disk.Reading
import ModuleBundler.Proofs.Path.NormalForm

/-!
# Canonical places

On a disk with links, many texts lead to one place. The place itself is told apart from them by its
way: there are directories on it and no links, and no link stands at its end. Such a place is
canonical, `Disk.IsCanonical`, and so are all places on the way to it.

A walk keeps to canonical places whatever links it follows (`Disk.IsCanonical.walk`): a link sends
it to the root or leaves it where it is, and from there it goes on name by name. So the system
answers with canonical places, and the text of a canonical place leads to the place itself, along
names only (`Disk.IsCanonical.walk_segments`). Canonical places are therefore the places that the
system finds by their own texts (`Disk.isCanonical_iff`). This needs names that the system takes
back, `Disk.Nameable`: one with the character that ends paths could not be handed to it.

A store walks in the same way, segment by segment, and answers with the paths of canonical places
(`DiskStore.isCanonical_of_resolve`).
-/

namespace ModuleBundler

/-! ### The names that walks use -/

namespace Step

variable {text n : String}

/-- The names in a text are plain, and none leads up. -/
theorem plain_of_name_mem (h : Step.name n ∈ ofText text) :
    Path.Plain n ∧ n ≠ Path.parentName := by
  rcases List.mem_append.1 h with h | h
  · obtain ⟨piece, hpiece, hstep⟩ := List.mem_filterMap.1 h
    rw [ofPiece] at hstep
    split at hstep
    · cases hstep
    · split at hstep
      · cases hstep
      · split at hstep
        · cases hstep
        · obtain rfl := Step.name.inj (Option.some.inj hstep)
          obtain ⟨part, hpart, rfl⟩ := List.mem_map.1 hpiece
          refine ⟨⟨‹_›, ‹_›, ?_⟩, ‹_›⟩
          rw [String.toList_ofList]
          exact not_mem_of_mem_splitOn hpart
  · split at h
    · cases List.mem_singleton.1 h
    · cases h

end Step

namespace Disk

variable {d : Disk} {cwd place q : Place} {front rest : List String} {name text : String}
  {entry : DiskEntry} {ending : Ending} {whole : Bool} {links : Nat} {steps : List Step}

/-- No name on the disk has the character that ends paths. -/
def Nameable (d : Disk) : Prop :=
  ∀ entry ∈ d.entries, ∀ name ∈ entry.1, hasNul name = false

instance (d : Disk) : Decidable d.Nameable :=
  inferInstanceAs (Decidable (∀ entry ∈ d.entries, ∀ name ∈ entry.1, hasNul name = false))

theorem Nameable.hasNul_eq_false (h : d.Nameable)
    (hentry : d.entry? (place ++ [name]) = some entry) : hasNul name = false := by
  rw [Disk.entry?, if_neg (by simp)] at hentry
  obtain ⟨before, after, hentries, -⟩ := List.lookup_eq_some_iff.1 hentry
  exact h (place ++ [name], entry) (by simp [hentries]) name (by simp)

/-! ### Canonical places -/

/-- Something stands at a place that is no link, and there are directories on the way to it. The
names on the way are such that the system takes them. -/
structure IsCanonical (d : Disk) (place : Place) : Prop where
  /-- The names are plain, and none leads up. -/
  plain : ∀ name ∈ place, Path.Plain name ∧ name ≠ Path.parentName
  /-- The system takes the names and the text of the place. -/
  fits : (Place.path place).Fits
  /-- There are directories on the way. -/
  directory : ∀ front, front <+: place → front ≠ place → d.isDirectory front = true
  /-- No link stands at the place. -/
  standing : ∃ entry, d.entry? place = some entry ∧ ∀ target, entry ≠ .link target

theorem isCanonical_root (d : Disk) : d.IsCanonical [] where
  plain := nofun
  fits := Path.fits_root
  directory _ hfront hne := absurd (List.prefix_nil.1 hfront) hne
  standing := ⟨.directory, rfl, nofun⟩

/-- One name below a canonical place that is a directory. -/
theorem IsCanonical.concat (h : d.IsCanonical place) (hdirectory : d.isDirectory place = true)
    (hname : Path.Plain name ∧ name ≠ Path.parentName) (hnul : hasNul name = false)
    (hshort : isTooLong true place name = false) (hentry : d.entry? (place ++ [name]) = some entry)
    (hlink : ∀ target, entry ≠ .link target) : d.IsCanonical (place ++ [name]) where
  plain other hother := by
    rcases List.mem_append.1 hother with hother | hother
    · exact h.plain other hother
    · obtain rfl := List.mem_singleton.1 hother
      exact hname
  fits := fits_concat h.fits hnul hshort
  directory front hfront hne := by
    rcases List.prefix_concat_iff.1 hfront with heq | hfront
    · exact absurd heq hne
    · by_cases hall : front = place
      · rwa [hall]
      · exact h.directory front hfront hall
  standing := ⟨entry, hentry, hlink⟩

/-- **What is on the way to a canonical place is canonical.** -/
theorem IsCanonical.of_isPrefix (h : d.IsCanonical place) (hfront : front <+: place) :
    d.IsCanonical front where
  plain name hname := h.plain name (hfront.subset hname)
  fits := h.fits.of_sublist rfl rfl hfront.sublist
  directory further hfurther hne := by
    refine h.directory further (hfurther.trans hfront) ?_
    rintro rfl
    exact hne (hfurther.eq_of_length_le hfront.length_le)
  standing := by
    by_cases hall : front = place
    · rw [hall]
      exact h.standing
    · exact ⟨.directory, beq_iff_eq.1 (h.directory front hfront hall), nofun⟩

theorem IsCanonical.dropLast (h : d.IsCanonical place) : d.IsCanonical place.dropLast :=
  h.of_isPrefix (List.dropLast_prefix place)

theorem IsCanonical.wellFormed (h : d.IsCanonical place) : (Place.path place).WellFormed :=
  fun name hname ↦ (h.plain name hname).1

theorem IsCanonical.parentName_not_mem (h : d.IsCanonical place) : Path.parentName ∉ place :=
  fun hname ↦ (h.plain Path.parentName hname).2 rfl

/-- The path of a canonical place leads nowhere up. -/
theorem IsCanonical.isCanonical_path (h : d.IsCanonical place) :
    (Place.path place).isCanonical = true := by
  simp [Place.path, Path.isCanonical, h.parentName_not_mem]

theorem IsCanonical.normalize_path (h : d.IsCanonical place) :
    (Place.path place).normalize = .ok (Place.path place) := by
  refine Path.normalize_eq_ok.2 ⟨_, Path.climb_of_not_mem h.parentName_not_mem, ?_⟩
  rw [List.append_nil, List.reverse_reverse, Place.path]

/-! ### Walks among canonical places -/

/-- **A walk that starts at a canonical place ends at one**, whatever links it follows. -/
theorem IsCanonical.walk (hnames : d.Nameable) (hplace : d.IsCanonical place)
    (hsteps : ∀ n, Step.name n ∈ steps → Path.Plain n ∧ n ≠ Path.parentName)
    (hwalk : d.walk .use true links place steps = .ok (.found q entry)) : d.IsCanonical q := by
  fun_induction d.walk .use true links place steps with
  | case1 links place found hfound =>
    obtain ⟨rfl, -⟩ := Landing.found.inj (Except.ok.inj hwalk)
    exact hplace
  | case2 => cases hwalk
  | case3 => cases hwalk
  | case4 links place rest hdirectory ih =>
    exact ih hplace.dropLast (fun n hn ↦ hsteps n (List.mem_cons_of_mem _ hn)) hwalk
  | case5 links place rest hdirectory ih =>
    exact ih hplace (fun n hn ↦ hsteps n (List.mem_cons_of_mem _ hn)) hwalk
  | case6 links place rest hdirectory ih =>
    exact ih hplace (fun n hn ↦ hsteps n (List.mem_cons_of_mem _ hn)) hwalk
  | case11 links place rest _ name _ _ target _ hends => simp [Ending.use] at hends
  | case13 place rest _ name _ _ target _ _ links ih =>
    -- the link leads to the root or leaves the walk where it is, and its target has names of a text
    have hstart : d.IsCanonical (Step.start place target) := by
      rw [Step.start]
      split
      · exact isCanonical_root d
      · exact hplace
    refine ih hstart (fun n hn ↦ ?_) hwalk
    rcases List.mem_append.1 hn with hn | hn
    · exact Step.plain_of_name_mem hn
    · exact hsteps n (List.mem_cons_of_mem _ hn)
  | case14 links place rest hdirectory name _ hshort found hlink hfound ih =>
    refine ih ?_ (fun n hn ↦ hsteps n (List.mem_cons_of_mem _ hn)) hwalk
    exact hplace.concat (by simpa using hdirectory) (hsteps name List.mem_cons_self)
      (hnames.hasNul_eq_false hfound) (Bool.eq_false_iff.2 hshort) hfound hlink
  | _ => cases hwalk

/-- A link is replaced by the steps of its target. -/
theorem walk_link {target : String} (hdirectory : d.isDirectory place = true)
    (hshort : isTooLong whole place name = false)
    (hlink : d.entry? (place ++ [name]) = some (.link target)) (links : Nat) (rest : List Step) :
    d.walk .use whole (links + 1) place (.name name :: rest) =
      d.walk .use whole links (Step.start place target) (Step.ofText target ++ rest) := by
  rw [Disk.walk.eq_def]
  simp [hdirectory, hshort, hlink, Ending.use, Ending.obtain]

/-- A name that does not stand for a link is gone to. -/
theorem walk_present (hdirectory : d.isDirectory place = true)
    (hshort : isTooLong whole place name = false) (hentry : d.entry? (place ++ [name]) = some entry)
    (hlink : ∀ target, entry ≠ .link target) (links : Nat) (rest : List Step) :
    d.walk .use whole links place (.name name :: rest) =
      d.walk .use whole links (place ++ [name]) rest := by
  rw [Disk.walk.eq_def]
  simp only [hdirectory, hshort, hentry]
  rcases entry with data | - | target
  · simp [Ending.use, Ending.obtain]
  · simp [Ending.use, Ending.obtain]
  · exact absurd rfl (hlink target)

/-- **The names of a canonical place lead to it**, from any place on its way. -/
theorem IsCanonical.walk_segments (h : d.IsCanonical (front ++ rest))
    (hentry : d.entry? (front ++ rest) = some entry) (whole : Bool) (links : Nat) :
    d.walk .use whole links front (rest.map Step.ofSegment) =
      .ok (.found (front ++ rest) entry) := by
  induction rest generalizing front with
  | nil =>
    rw [List.append_nil] at hentry ⊢
    rw [List.map_nil, Disk.walk, hentry]
  | cons name rest ih =>
    have hdirectory : d.isDirectory front = true :=
      h.directory front (List.prefix_append _ _) (by simp)
    have hname : name ≠ Path.parentName := (h.plain name (by simp)).2
    rw [List.append_cons] at h hentry ⊢
    have hnext : d.IsCanonical (front ++ [name]) := h.of_isPrefix (List.prefix_append _ _)
    obtain ⟨next, hnextEntry, hlink⟩ := hnext.standing
    have hstep : d.walk .use whole links front ((name :: rest).map Step.ofSegment) =
        d.walk .use whole links (front ++ [name]) (rest.map Step.ofSegment) := by
      rw [List.map_cons, Step.ofSegment, if_neg hname]
      exact walk_present hdirectory (isTooLong_of_fits hnext.fits whole) hnextEntry hlink _ _
    rw [hstep]
    exact ih h hentry

/-! ### What the system finds -/

/-- **What the system finds is canonical**, for one who stands at a canonical place. -/
theorem isCanonical_of_canonical (hnames : d.Nameable) (hcwd : d.IsCanonical cwd)
    (h : d.canonical cwd text = .ok place) : d.IsCanonical place := by
  have hstart : d.IsCanonical (Step.start cwd text) := by
    rw [Step.start]
    split
    · exact isCanonical_root d
    · exact hcwd
  rw [Disk.canonical] at h
  split at h
  case isTrue => cases h
  case isFalse =>
    split at h
    case h_1 q entry hwalk =>
      obtain rfl := Except.ok.inj h
      exact hstart.walk hnames (fun n ↦ Step.plain_of_name_mem) hwalk
    all_goals cases h

/-- **A canonical place is found by its own text.** -/
theorem IsCanonical.canonical_text (h : d.IsCanonical place) (cwd : Place) :
    d.canonical cwd place.text = .ok place := by
  obtain ⟨entry, hentry, -⟩ := h.standing
  have hwalk : d.walk .use true mostLinks [] (place.map Step.ofSegment) =
      .ok (.found place entry) := h.walk_segments hentry true mostLinks
  rw [Place.text, canonical_toOsText rfl h.wellFormed, hasNul_of_fits rfl h.fits,
    if_neg Bool.false_ne_true, Place.path, hwalk]

/-- The text of a canonical place leads to what stands there. -/
theorem IsCanonical.reach_text (h : d.IsCanonical place) (hentry : d.entry? place = some entry)
    (cwd : Place) : d.reach cwd place.text .use = .ok (.found place entry) := by
  have hwalk : d.walk .use false mostLinks [] (place.map Step.ofSegment) =
      .ok (.found place entry) := h.walk_segments hentry false mostLinks
  rw [Place.text, reach_toOsText rfl h.wellFormed h.fits, Place.path, hwalk]

/-- **Canonical places are those that the system finds by their own texts.** -/
theorem isCanonical_iff (hnames : d.Nameable) (cwd : Place) :
    d.IsCanonical place ↔ d.canonical cwd place.text = .ok place := by
  refine ⟨fun h ↦ h.canonical_text cwd, fun h ↦ ?_⟩
  have hroot : d.canonical [] place.text = .ok place := by
    rw [← h, Disk.canonical, Disk.canonical, Place.text, Step.start_toOsText rfl,
      Step.start_toOsText rfl]
  exact isCanonical_of_canonical hnames (isCanonical_root d) hroot

end Disk

/-! ### What stores on disks answer -/

namespace DiskStore

variable {S : DiskStore} {place next : Place} {front rest : List String} {name segment : String}
  {p context relative : Path}

theorem isCanonical_of_place (hnames : S.disk.Nameable) (hcwd : S.disk.IsCanonical S.cwd)
    (hplace : S.place p = .ok place) : S.disk.IsCanonical place :=
  Disk.isCanonical_of_canonical hnames hcwd (canonical_of_place hplace)

/-- A step leads from a canonical place to a canonical place, be it through a link. -/
theorem isCanonical_of_step (hnames : S.disk.Nameable) (hcwd : S.disk.IsCanonical S.cwd)
    (h : S.disk.IsCanonical place) (hstep : S.step place segment = .ok next) :
    S.disk.IsCanonical next := by
  rw [step] at hstep
  split at hstep
  case isTrue hup =>
    split at hstep
    case isTrue => cases hstep
    case isFalse =>
      split at hstep
      case isTrue => cases hstep
      case isFalse =>
        obtain rfl := Except.ok.inj hstep
        exact h.dropLast
  case isFalse hname =>
    split at hstep
    case isTrue => cases hstep
    case isFalse => exact Disk.isCanonical_of_canonical hnames hcwd (asked_eq_ok.1 hstep)

/-- **What resolves is the path of a canonical place**, whatever the directory and the request are
like, and whatever links are on the way. -/
theorem isCanonical_of_resolve (hnames : S.disk.Nameable) (hcwd : S.disk.IsCanonical S.cwd)
    (hresolve : FileStore.resolve context relative S = .ok p) :
    ∃ place, S.disk.IsCanonical place ∧ Place.path place = p := by
  obtain ⟨start, hstart, hrest⟩ := bind_eq_ok.1 hresolve
  obtain ⟨found, hfound, hp⟩ := bind_eq_ok.1 hrest
  refine ⟨found, ?_, Except.ok.inj hp⟩
  exact foldlM_keeps (fun hplace hstep ↦ isCanonical_of_step hnames hcwd hplace hstep)
    (isCanonical_of_place hnames hcwd hstart) hfound

/-! ### Going to canonical places -/

/-- The path of a canonical place leads to the place. -/
theorem place_path (h : S.disk.IsCanonical place) : S.place place.path = .ok place := by
  have hfound : asked place.text (S.disk.canonical S.cwd place.text) = .ok place := by
    rw [h.canonical_text S.cwd]
    rfl
  have habsolute : (Place.path place).absolute = true := rfl
  rw [DiskStore.place, if_pos habsolute, h.normalize_path]
  exact hfound

/-- **Step by step, the names of a canonical place lead to it.** -/
theorem foldlM_step_eq (h : S.disk.IsCanonical (front ++ rest)) :
    rest.foldlM S.step front = .ok (front ++ rest) := by
  induction rest generalizing front with
  | nil => rw [List.append_nil]; rfl
  | cons name rest ih =>
    have hdirectory : S.disk.isDirectory front = true :=
      h.directory front (List.prefix_append _ _) (by simp)
    have hname : name ≠ Path.parentName := (h.plain name (by simp)).2
    rw [List.append_cons] at h ⊢
    have hnext : S.disk.IsCanonical (front ++ [name]) := h.of_isPrefix (List.prefix_append _ _)
    have hstep : S.step front name = .ok (front ++ [name]) := by
      rw [step, if_neg hname, hdirectory]
      exact asked_eq_ok.2 (hnext.canonical_text S.cwd)
    rw [List.foldlM_cons, hstep]
    exact ih h

/-- **The path of a canonical place resolves to itself.** -/
theorem resolve_path (h : S.disk.IsCanonical place) :
    FileStore.resolve Path.root place.path S = .ok place.path :=
  have hnames : place.foldlM S.step [] = .ok place := foldlM_step_eq h
  bind_eq_ok.2 ⟨[], place_path (Disk.isCanonical_root S.disk),
    bind_eq_ok.2 ⟨place, hnames, rfl⟩⟩

/-- The path of a canonical place is that of a file if a file stands there. -/
theorem isFile_path (h : S.disk.IsCanonical place) :
    FileStore.isFile place.path S = S.disk.isFile place := by
  obtain ⟨entry, hentry, -⟩ := h.standing
  show (S.disk.look? S.cwd place.text).any DiskEntry.isFile = _
  rw [Disk.look?, h.reach_text hentry S.cwd, Disk.isFile, hentry]

/-- The path of a canonical place leads to the content of the file that stands there. -/
theorem content_path (h : S.disk.IsCanonical place) {data : Bytes}
    (hdata : S.disk.entry? place = some (.file data)) : S.content place.path = .ok data := by
  have hfile : S.disk.isFile place = true := by
    rw [Disk.isFile, hdata]
    rfl
  have hcontent : S.disk.contentAt S.cwd place.text = .ok data := by
    rw [Disk.contentAt, h.reach_text hdata S.cwd]
  rw [content, place_path h]
  show (if S.disk.isFile place = true then _ else _) = _
  rw [if_pos hfile, hcontent]
  rfl

/-- A file at a canonical place opens under the path of the place. -/
theorem openedPath_path (hfresh : S.handles.Fresh) (h : S.disk.IsCanonical place)
    (hfile : S.disk.isFile place = true) :
    FileStore.openedPath place.path S = .ok place.path := by
  have hopen : FileStore.openFile place.path S = .ok ((S.handles.insert ⟨place, place.path⟩).1,
      { S with handles := (S.handles.insert ⟨place, place.path⟩).2 }) :=
    openFile_eq_ok.2 ⟨place, place_path h, hfile, rfl, rfl⟩
  obtain ⟨-, hreal, -⟩ := of_openFile hfresh hopen
  rw [FileStore.openedPath, hopen]
  simp only [hreal, place_path h]
  rfl

end DiskStore

end ModuleBundler
