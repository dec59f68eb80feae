import ModuleBundler.Proofs.Disk.Text
import ModuleBundler.Proofs.Path.Grounded
import ModuleBundler.Proofs.Resolution.Probing

/-!
# Walks on a disk without links

A disk without links is a catalog (`Disk.Mirrors`), and a walk on it follows segments through the
catalog as `Catalog.denoted?` does, with two differences. The system takes a step up from the root
for a step to the root, where a catalog has nothing. And it takes no names, and no paths, that are
too long.

The first is a matter of the path alone: a walk along a path lands where the catalog says for the
path without the steps up from the root, `Path.grounded`. Of a path that reads as something, nothing
is taken away (`Path.grounded_of_normalize`).
-/

namespace ModuleBundler

/-! ### Disks and catalogs -/

/-- An entry of a catalog, as it stands on a disk. -/
def Entry.onDisk : Entry → DiskEntry
  | .directory => .directory
  | .file data => .file data

/-- The entries of a catalog have canonical paths with plain segments, and above each is a
directory. -/
structure Catalog.IsTree (m : Catalog) : Prop where
  /-- The root is a directory. -/
  root : m Path.root = some .directory
  /-- Paths do not lead up. -/
  canonical : ∀ {p : Path}, m p ≠ none → p.isCanonical = true
  /-- Names are plain. -/
  wellFormed : ∀ {p : Path}, m p ≠ none → p.WellFormed
  /-- What is above an entry is a directory. -/
  above : ∀ {p : Path}, m p ≠ none → p.segments ≠ [] →
    m ⟨true, p.segments.dropLast⟩ = some .directory

theorem MemoryStore.Tree.isTree_catalog {s : MemoryStore} (h : s.Tree) : s.catalog.IsTree where
  root := h.catalog_root
  canonical {p} hp := by
    obtain ⟨e, he⟩ := Option.ne_none_iff_exists'.1 hp
    obtain ⟨id, -, rfl⟩ := h.catalog_eq_some.1 he
    exact h.isCanonical_pathOf id
  wellFormed {p} hp := by
    obtain ⟨id, hid, -⟩ := MemoryStore.resolve_eq_ok.1 (h.resolve_self hp)
    have hplain := h.wellFormed_of_lookup hid
    intro segment hsegment
    exact hplain segment (MemoryStore.segments_join_root p ▸ hsegment)
  above hp hne := h.catalog_dropLast hp hne

namespace Disk

/-- The disk has what the catalog has, and nothing else: there are no links. -/
def Mirrors (d : Disk) (m : Catalog) : Prop :=
  ∀ place : Place, d.entry? place = (m place.path).map Entry.onDisk

variable {d : Disk} {m : Catalog} {place : Place} {name : String}

namespace Mirrors

theorem isDirectory_iff (h : d.Mirrors m) :
    d.isDirectory place = true ↔ m place.path = some .directory := by
  rw [isDirectory, h place]
  rcases m place.path with - | - | data <;> simp [Entry.onDisk]

theorem isFile_eq (h : d.Mirrors m) : d.isFile place = m.hasFile place.path := by
  rw [isFile, h place, Catalog.hasFile]
  rcases m place.path with - | - | data <;> rfl

theorem entry?_eq_none (h : d.Mirrors m) : d.entry? place = none ↔ m place.path = none := by
  rw [h place, Option.map_eq_none_iff]

end Mirrors

theorem lookup_erase (d : Disk) (p q : Place) :
    (d.erase p).entries.lookup q = if q = p then none else d.entries.lookup q := by
  obtain ⟨entries⟩ := d
  simp only [erase]
  induction entries with
  | nil => simp
  | cons first rest ih =>
    obtain ⟨place, entry⟩ := first
    rw [List.lookup_cons]
    by_cases hfirst : place = p
    · rw [List.filter_cons_of_neg (by simpa using hfirst), ih, hfirst]
      split
      · rfl
      · rw [beq_false_of_ne ‹_›]
    · rw [List.filter_cons_of_pos (by simpa using hfirst), List.lookup_cons, ih]
      by_cases hq : q = place
      · simp only [hq, beq_self_eq_true, if_neg hfirst]
      · rw [beq_false_of_ne hq]

theorem entry?_erase (hplace : place ≠ []) (q : Place) :
    Disk.entry? (d.erase place) q = if q = place then none else d.entry? q := by
  simp only [Disk.entry?, lookup_erase]
  by_cases hroot : q = []
  · rw [if_pos hroot, if_pos hroot, if_neg fun hq : q = place ↦ hplace (hq ▸ hroot)]
  · rw [if_neg hroot, if_neg hroot]

theorem entry?_put (hplace : place ≠ []) (entry : DiskEntry) (q : Place) :
    Disk.entry? (d.put place entry) q = if q = place then some entry else d.entry? q := by
  by_cases hq : q = place
  · rw [if_pos hq, hq, entry?, if_neg hplace, put, List.lookup_cons_self]
  · have herase := entry?_erase (d := d) hplace q
    rw [if_neg hq] at herase ⊢
    rw [← herase, entry?, entry?, put, List.lookup_cons, beq_false_of_ne hq]

/-- A new entry of a catalog, on the disk. -/
theorem Mirrors.put (h : d.Mirrors m) (hplace : place ≠ []) (entry : Entry) :
    (d.put place entry.onDisk).Mirrors (Function.update m place.path (some entry)) := by
  intro q
  rw [entry?_put hplace]
  by_cases hq : q = place
  · rw [if_pos hq, hq, Function.update_self, Option.map_some]
  · have hpath : q.path ≠ place.path := fun heq ↦ hq (Path.mk.inj heq).2
    rw [if_neg hq, Function.update_of_ne hpath, h q]

theorem Mirrors.erase (h : d.Mirrors m) (hplace : place ≠ []) :
    (d.erase place).Mirrors (Function.update m place.path none) := by
  intro q
  rw [entry?_erase hplace]
  by_cases hq : q = place
  · rw [if_pos hq, hq, Function.update_self, Option.map_none]
  · have hpath : q.path ≠ place.path := fun heq ↦ hq (Path.mk.inj heq).2
    rw [if_neg hq, Function.update_of_ne hpath, h q]

/-! ### Where walks land -/

/-- What a walk answers: it lands at what is denoted, or finds that nothing is. -/
def Lands (m : Catalog) (answer : Except OsFault Landing) : Option Path → Prop
  | some q => ∃ entry, m q = some entry ∧ answer = .ok (.found q.segments entry.onDisk)
  | none => answer = .error .notFound ∨ answer = .error .notDirectory

variable {ending : Ending} {whole : Bool} {links : Nat} {segments : List String}
  {step : Step} {rest : List Step}

/-- A walk that ends at something ends at what stands there. -/
theorem entry?_of_walk {steps : List Step} {q : Place} {entry : DiskEntry}
    (h : d.walk ending whole links place steps = .ok (.found q entry)) :
    d.entry? q = some entry := by
  fun_induction d.walk ending whole links place steps
  all_goals simp_all

theorem walk_of_not_isDirectory (hplace : d.isDirectory place = false) :
    d.walk ending whole links place (step :: rest) = .error .notDirectory := by
  rw [walk.eq_def]
  simp only [hplace, Bool.not_false, if_true]

theorem walk_up (hplace : d.isDirectory place = true) :
    d.walk ending whole links place (.up :: rest) =
      d.walk ending whole links place.dropLast rest := by
  rw [walk, hplace]
  rfl

/-- A step to a name, where there are no links. -/
theorem walk_name (h : d.Mirrors m) (hplace : d.isDirectory place = true)
    (hslash : rest ≠ [.slash]) :
    d.walk ending whole links place (.name name :: rest) =
      if isTooLong whole place name then .error .nameTooLong
      else if m (place.path.below name) = none then
        if ending.mayMiss ∧ rest = [] then .ok (.vacant place name) else .error .notFound
      else d.walk ending whole links (place ++ [name]) rest := by
  rw [walk.eq_def]
  simp only [hplace, Bool.not_true, Bool.false_eq_true, if_false, hslash, and_false]
  have hbelow : d.entry? (place ++ [name]) = (m (place.path.below name)).map Entry.onDisk :=
    h (place ++ [name])
  rw [hbelow]
  rcases m (place.path.below name) with - | - | data <;> simp [Entry.onDisk]

theorem map_ofSegment_ne_slash (segments : List String) :
    segments.map Step.ofSegment ≠ [.slash] := by
  rcases segments with - | ⟨segment, rest⟩
  · exact (List.cons_ne_nil _ _).symm
  · rw [List.map_cons, Step.ofSegment]
    split <;> simp

/-- From a file, no segments lead anywhere. -/
theorem foldlM_ground_of_ne_directory (hm : m.IsTree) (hplace : m place.path ≠ some .directory)
    (segment : String) (rest : List String) :
    (Path.ground place.length (segment :: rest)).foldlM m.step place.path = none := by
  have hroot : place.length ≠ 0 := by
    rw [ne_eq, List.length_eq_zero_iff]
    rintro rfl
    exact hplace hm.root
  have hstep : ∀ next, m.step place.path next = none := fun next ↦ if_neg hplace
  rw [Path.ground, if_neg hroot]
  split <;> rw [List.foldlM_cons, hstep] <;> rfl

/-- **A walk lands where the catalog says**, unless a name is too long. -/
theorem walk_lands (h : d.Mirrors m) (hm : m.IsTree) (hplace : m place.path ≠ none)
    (hshort : d.walk .use whole links place (segments.map Step.ofSegment) ≠ .error .nameTooLong) :
    Lands m (d.walk .use whole links place (segments.map Step.ofSegment))
      ((Path.ground place.length segments).foldlM m.step place.path) := by
  induction segments generalizing place with
  | nil =>
    obtain ⟨entry, hentry⟩ := Option.ne_none_iff_exists'.1 hplace
    rw [List.map_nil, walk, h place, hentry]
    exact ⟨entry, hentry, rfl⟩
  | cons segment rest ih =>
    rw [List.map_cons] at hshort ⊢
    by_cases hdirectory : m place.path = some .directory
    · have hstands := h.isDirectory_iff.2 hdirectory
      by_cases hname : segment = Path.parentName
      · rw [Step.ofSegment, if_pos hname, walk_up hstands] at hshort ⊢
        rw [Path.ground, if_neg (not_not.2 hname)]
        split
        case isTrue hroot =>
          -- the system stays at the root, and the step is not among what is left of the path
          rw [List.length_eq_zero_iff] at hroot
          subst hroot
          exact ih hplace hshort
        case isFalse hroot =>
          have hne : place ≠ [] := fun hnil ↦ hroot (hnil ▸ rfl)
          have habove : m (Place.path place.dropLast) = some .directory := hm.above hplace hne
          have hstep : m.step place.path segment = some (Place.path place.dropLast) := by
            rw [Catalog.step, if_pos hdirectory, if_pos hname]
            exact if_neg hne
          rw [List.foldlM_cons, hstep, ← List.length_dropLast]
          exact ih (habove ▸ Option.some_ne_none _) hshort
      · rw [Step.ofSegment, if_neg hname, walk_name h hstands (map_ofSegment_ne_slash rest)]
          at hshort ⊢
        rw [Path.ground, if_pos hname, List.foldlM_cons, Catalog.step, if_pos hdirectory,
          if_neg hname]
        split at hshort
        case isTrue => exact absurd rfl hshort
        case isFalse hfits =>
          rw [if_neg hfits]
          split
          case isTrue => exact Or.inl rfl
          case isFalse hbelow =>
            -- one name deeper, the steps that may be taken up are one more
            rw [if_neg hbelow] at hshort
            have hlength : place.length + 1 = (place ++ [segment]).length := by simp
            rw [hlength]
            exact ih hbelow hshort
    · have hstands : d.isDirectory place = false :=
        Bool.eq_false_iff.2 (mt h.isDirectory_iff.1 hdirectory)
      rw [walk_of_not_isDirectory hstands, foldlM_ground_of_ne_directory hm hdirectory]
      exact Or.inr rfl

/-- A walk of two parts goes on from where its first part leads to. What is done with the last name
of a path matters in the second part only. -/
theorem walk_append (h : d.Mirrors m) (hm : m.IsTree) (hplace : m place.path ≠ none)
    {rest : List String} (hrest : rest ≠ []) :
    d.walk ending whole links place ((segments ++ rest).map Step.ofSegment) =
      match d.walk .use whole links place (segments.map Step.ofSegment) with
      | .ok (.found q _) => d.walk ending whole links q (rest.map Step.ofSegment)
      | .ok (.vacant ..) => .error .notFound
      | .error fault => .error fault := by
  induction segments generalizing place with
  | nil =>
    obtain ⟨entry, hentry⟩ := Option.ne_none_iff_exists'.1 hplace
    rw [List.map_nil, List.nil_append, walk, h place, hentry]
    rfl
  | cons segment front ih =>
    rw [List.cons_append, List.map_cons, List.map_cons]
    cases hstands : d.isDirectory place with
    | false => rw [walk_of_not_isDirectory hstands, walk_of_not_isDirectory hstands]
    | true =>
      by_cases hname : segment = Path.parentName
      · rw [Step.ofSegment, if_pos hname, walk_up hstands, walk_up hstands]
        rcases List.eq_nil_or_concat' place with rfl | ⟨above, name, rfl⟩
        · exact ih hplace
        · refine ih ?_
          have habove := hm.above hplace (by simp [Place.path])
          exact habove ▸ Option.some_ne_none _
      · rw [Step.ofSegment, if_neg hname, walk_name h hstands (map_ofSegment_ne_slash _),
          walk_name h hstands (map_ofSegment_ne_slash front)]
        split
        · rfl
        · split
          · -- the name that is missing is not the last one, so it must not be missing
            simp [hrest, Ending.use]
          · exact ih ‹_›

end Disk

/-! ### Paths that the system takes -/

namespace Path

/-- No segment of the path has the character that ends paths, and neither a segment nor the path is
longer than the system takes. -/
def Fits (p : Path) : Prop :=
  (∀ segment ∈ p.segments, Disk.hasNul segment = false ∧
    segment.utf8ByteSize ≤ Disk.longestName) ∧ p.toOsText.utf8ByteSize ≤ Disk.longestPath

instance (p : Path) : Decidable p.Fits :=
  inferInstanceAs (Decidable (_ ∧ _))

variable {p q : Path}

theorem fits_root : root.Fits := by decide

/-- A path with fewer segments has a shorter text. -/
theorem utf8ByteSize_toOsText_le (hp : p.absolute = true) (hq : q.absolute = true)
    (h : q.segments.Sublist p.segments) :
    q.toOsText.utf8ByteSize ≤ p.toOsText.utf8ByteSize := by
  have hsum : ∀ {segments : List String} {r : Path}, r.absolute = true → r.segments = segments →
      r.toOsText.utf8ByteSize =
        max 1 (segments.map fun segment ↦ segment.utf8ByteSize + 1).sum := by
    rintro segments r hr rfl
    rcases hsegments : r.segments with - | ⟨segment, rest⟩
    · rw [toOsText_of_eq_nil hr hsegments]
      rfl
    · rw [toOsText_of_ne_nil hr (hsegments ▸ List.cons_ne_nil _ _), utf8ByteSize_slashed, hsegments,
        List.map_cons, List.sum_cons]
      omega
  rw [hsum hp rfl, hsum hq rfl]
  exact max_le_max le_rfl ((h.map _).sum_le_sum fun _ _ ↦ Nat.zero_le _)

theorem Fits.of_sublist (h : p.Fits) (hp : p.absolute = true) (hq : q.absolute = true)
    (hsublist : q.segments.Sublist p.segments) : q.Fits :=
  ⟨fun segment hsegment ↦ h.1 segment (hsublist.subset hsegment),
    (utf8ByteSize_toOsText_le hp hq hsublist).trans h.2⟩

end Path

namespace Disk

variable {d : Disk} {m : Catalog} {place q : Place} {name : String} {ending : Ending}
  {whole : Bool} {links : Nat} {segments : List String} {entry : DiskEntry}

/-- The name that ends a path is not too long if the path fits. -/
theorem isTooLong_of_fits (h : (Place.path (place ++ [name])).Fits) (whole : Bool) :
    isTooLong whole place name = false := by
  have hname := (h.1 name (by simp [Place.path])).2
  have hpath : (Place.text (place ++ [name])).utf8ByteSize ≤ longestPath := h.2
  simp only [isTooLong, Bool.or_eq_false_iff, Bool.and_eq_false_iff, decide_eq_false_iff_not,
    Nat.not_lt]
  exact ⟨hname, Or.inr hpath⟩

/-- A place fits, if it fits without its last name and this is not too long. -/
theorem fits_concat (h : (Place.path place).Fits) (hname : hasNul name = false)
    (hshort : isTooLong true place name = false) : (Place.path (place ++ [name])).Fits := by
  simp only [isTooLong, Bool.true_and, Bool.or_eq_false_iff, decide_eq_false_iff_not,
    Nat.not_lt] at hshort
  refine ⟨fun segment hsegment ↦ ?_, hshort.2⟩
  rcases List.mem_append.1 hsegment with hsegment | hsegment
  · exact h.1 segment hsegment
  · obtain rfl := List.mem_singleton.1 hsegment
    exact ⟨hname, hshort.1⟩

theorem fits_dropLast (h : (Place.path place).Fits) : (Place.path place.dropLast).Fits :=
  h.of_sublist rfl rfl (List.dropLast_sublist place)

/-- On the way along a path that fits, nothing is too long. -/
theorem walk_ne_nameTooLong (h : d.Mirrors m)
    (hfits : (Place.path (place ++ segments)).Fits) :
    d.walk ending whole links place (segments.map Step.ofSegment) ≠ .error .nameTooLong := by
  induction segments generalizing place with
  | nil =>
    rw [List.map_nil, walk]
    split <;> simp
  | cons segment rest ih =>
    rw [List.map_cons]
    cases hstands : d.isDirectory place with
    | false =>
      rw [walk_of_not_isDirectory hstands]
      simp
    | true =>
      by_cases hname : segment = Path.parentName
      · -- a step up leaves a part of the path, which is shorter
        rw [Step.ofSegment, if_pos hname, walk_up hstands]
        refine ih (hfits.of_sublist rfl rfl ?_)
        exact (List.dropLast_sublist place).append (List.sublist_cons_self segment rest)
      · have hshort : isTooLong whole place segment = false := by
          refine isTooLong_of_fits (hfits.of_sublist rfl rfl ?_) whole
          exact (List.Sublist.refl place).append (List.singleton_sublist.2 List.mem_cons_self)
        rw [Step.ofSegment, if_neg hname, walk_name h hstands (map_ofSegment_ne_slash rest), hshort,
          if_neg Bool.false_ne_true]
        split
        · split <;> simp
        · refine ih ?_
          rwa [List.append_assoc, List.singleton_append]

/-- **Where a walk that measures its way lands, the path fits.** -/
theorem fits_of_walk (h : d.Mirrors m) (hplace : (Place.path place).Fits)
    (hnul : ∀ segment ∈ segments, hasNul segment = false)
    (hwalk : d.walk .use true links place (segments.map Step.ofSegment) = .ok (.found q entry)) :
    (Place.path q).Fits := by
  induction segments generalizing place with
  | nil =>
    rw [List.map_nil, walk] at hwalk
    split at hwalk
    · obtain ⟨rfl, -⟩ := Landing.found.inj (Except.ok.inj hwalk)
      exact hplace
    · cases hwalk
  | cons segment rest ih =>
    have hrest : ∀ segment ∈ rest, hasNul segment = false :=
      fun next hnext ↦ hnul next (List.mem_cons_of_mem _ hnext)
    rw [List.map_cons] at hwalk
    cases hstands : d.isDirectory place with
    | false =>
      rw [walk_of_not_isDirectory hstands] at hwalk
      cases hwalk
    | true =>
      by_cases hname : segment = Path.parentName
      · rw [Step.ofSegment, if_pos hname, walk_up hstands] at hwalk
        exact ih (fits_dropLast hplace) hrest hwalk
      · rw [Step.ofSegment, if_neg hname, walk_name h hstands (map_ofSegment_ne_slash rest)]
          at hwalk
        split at hwalk
        case isTrue => cases hwalk
        case isFalse hshort =>
          split at hwalk
          · simp [Ending.use] at hwalk
          · refine ih (fits_concat hplace (hnul segment List.mem_cons_self) ?_) hrest hwalk
            exact Bool.eq_false_iff.2 hshort

end Disk

end ModuleBundler
