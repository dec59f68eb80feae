import Mathlib.Data.Set.Card
import ModuleBundler.Proofs.Path.WellFormed
import ModuleBundler.Text.Utf8

/-!
# Catalogs of files

What a store of files means, said without a tree: a catalog has an entry for some canonical paths,
which says that a directory stands there or a file, and which bytes the file has. All operations are
changes of one entry. What a path denotes is found by following its segments through the catalog,
one at a time (`Catalog.denoted?`): a name leads from a directory to the entry of that name, `..`
leads from a directory to the one above, and the root has none above it.

To make directories along a path takes several changes. How far it comes depends on what stands in
the way, and so its meaning is a recursion (`Catalog.descend`); but it only ever adds directories
(`Catalog.Grows.makeDirectories`), and when it succeeds the path denotes something
(`Catalog.denoted?_makeDirectories`).
-/

namespace ModuleBundler

/-- What stands at a path. -/
inductive Entry where
  /-- A directory. -/
  | directory
  /-- A file. -/
  | file (data : Bytes)
  deriving DecidableEq, Repr

/-- What stands where. -/
abbrev Catalog : Type :=
  Path → Option Entry

/-- The canonical path of what has a name in the directory at a canonical path. -/
def Path.below (directory : Path) (name : String) : Path :=
  ⟨true, directory.segments ++ [name]⟩

namespace Catalog

variable {m m' : Catalog} {path p q : Path} {bytes : Bytes}

/-! ### What paths denote -/

/-- One step of a path. -/
def step (m : Catalog) (current : Path) (segment : String) : Option Path :=
  if m current = some .directory then
    if segment = Path.parentName then
      if current.segments = [] then none else some ⟨true, current.segments.dropLast⟩
    else
      if m (current.below segment) = none then none else some (current.below segment)
  else none

/-- The canonical path of what a path denotes. -/
def denoted? (m : Catalog) (path : Path) : Option Path :=
  path.segments.foldlM m.step Path.root

/-- The canonical path of the entry that a change at a path is about, whether there is an entry or
not. What is above it has to be a directory, and it has to have a name. -/
def slot? (m : Catalog) (path : Path) : Option Path :=
  match path.segments.getLast?, m.denoted? ⟨path.absolute, path.segments.dropLast⟩ with
  | some name, some above =>
    if name ≠ Path.parentName ∧ m above = some .directory then
      some (above.below name)
    else none
  | _, _ => none

/-! ### Operations -/

/-- The content of the file at a path. -/
def read (m : Catalog) (path : Path) : Option Bytes :=
  match (m.denoted? path).bind m with
  | some (.file data) => some data
  | _ => none

/-- Changes the entry that a change at a path is about to what `f` makes of it, unless `f` refuses
it. -/
def change (m : Catalog) (path : Path) (f : Option Entry → Option (Option Entry)) :
    Option Catalog :=
  match m.slot? path with
  | none => none
  | some p => (f (m p)).map (Function.update m p)

/-- Makes a file, or replaces the one that stands there. -/
def put (m : Catalog) (path : Path) (bytes : Bytes) : Option Catalog :=
  m.change path fun
    | some .directory => none
    | _ => some (some (.file bytes))

/-- Makes a directory where nothing is. -/
def makeDirectory (m : Catalog) (path : Path) : Option Catalog :=
  m.change path fun
    | none => some (some .directory)
    | some _ => none

/-- Removes a file. -/
def remove (m : Catalog) (path : Path) : Option Catalog :=
  m.change path fun
    | some (.file _) => some none
    | _ => none

/-- Makes directories one below the other, where nothing is denoted. There is an answer if this
comes to the end. -/
def descend (above : Path) : List String → Catalog → Option Unit × Catalog
  | [], m => (some (), m)
  | segment :: rest, m =>
    let next := above.child segment
    match m.denoted? next with
    | some _ => descend next rest m
    | none =>
      match m.makeDirectory next with
      | some made => descend next rest made
      | none => (none, m)

/-- Makes the directory at a path and all that are missing above it. -/
def makeDirectories (m : Catalog) (path : Path) : Option Unit × Catalog :=
  if path.absolute then descend Path.root path.segments m else (none, m)

/-- How many files there are. -/
noncomputable def fileCount (m : Catalog) : Nat :=
  Set.ncard {p | ∃ data, m p = some (.file data)}

/-- Following names, without steps up, adds them to the path. -/
theorem foldlM_step_of_not_mem {segments : List String}
    (h : Path.parentName ∉ segments) (hfold : segments.foldlM m.step p = some q) (hp : p.absolute) :
    q = ⟨true, p.segments ++ segments⟩ := by
  induction segments generalizing p with
  | nil =>
    obtain rfl : p = q := Option.some.inj hfold
    obtain ⟨absolute, segments⟩ := p
    obtain rfl : absolute = true := hp
    rw [List.append_nil]
  | cons segment rest ih =>
    rw [List.foldlM_cons] at hfold
    obtain ⟨next, hnext, hrest⟩ := Option.bind_eq_some_iff.1 hfold
    have hname : segment ≠ Path.parentName := fun heq ↦ h (heq ▸ List.mem_cons_self)
    have hbelow : next = p.below segment := by
      simp only [step, if_neg hname] at hnext
      split at hnext
      · split at hnext
        · cases hnext
        · exact (Option.some.inj hnext).symm
      · cases hnext
    subst hbelow
    rw [ih (fun hmem ↦ h (List.mem_cons_of_mem _ hmem)) hrest rfl, Path.below, List.append_assoc,
      List.singleton_append]

/-- **A canonical path denotes itself**, if it denotes anything. -/
theorem eq_of_denoted? (hpath : path.isCanonical = true) (h : m.denoted? path = some q) :
    q = path := by
  obtain ⟨absolute, segments⟩ := path
  simp only [Path.isCanonical, Bool.and_eq_true, Bool.not_eq_true', List.contains_eq_mem,
    decide_eq_false_iff_not] at hpath
  obtain ⟨rfl, hup⟩ := hpath
  exact foldlM_step_of_not_mem hup h rfl

/-! ### Making directories -/

/-- The second catalog has the entries of the first, and more directories perhaps. -/
def Grows (m m' : Catalog) : Prop :=
  ∀ p, m' p = m p ∨ m p = none ∧ m' p = some .directory

@[refl]
theorem Grows.refl (m : Catalog) : m.Grows m :=
  fun _ ↦ Or.inl rfl

@[trans]
theorem Grows.trans {m'' : Catalog} (h : m.Grows m') (h' : m'.Grows m'') : m.Grows m'' := by
  intro p
  rcases h' p with hp' | ⟨hnone, hdirectory⟩
  · rw [hp']
    exact h p
  · rcases h p with hp | ⟨-, hp⟩
    · exact Or.inr ⟨hp.symm.trans hnone, hdirectory⟩
    · rw [hnone] at hp
      cases hp

theorem change_eq_some {f : Option Entry → Option (Option Entry)} : m.change path f = some m' ↔
    ∃ p e, m.slot? path = some p ∧ f (m p) = some e ∧ Function.update m p e = m' := by
  rw [change]
  rcases m.slot? path with - | p <;> simp

theorem makeDirectory_eq_some : m.makeDirectory path = some m' ↔
    ∃ p, m.slot? path = some p ∧ m p = none ∧ Function.update m p (some .directory) = m' := by
  rw [makeDirectory, change_eq_some]
  constructor
  · rintro ⟨p, e, hslot, he, hupdate⟩
    split at he
    · obtain rfl := Option.some.inj he
      exact ⟨p, hslot, ‹_›, hupdate⟩
    · cases he
  · rintro ⟨p, hslot, hnone, hupdate⟩
    exact ⟨p, _, hslot, by rw [hnone], hupdate⟩

theorem put_eq_some : m.put path bytes = some m' ↔
    ∃ p, m.slot? path = some p ∧ m p ≠ some .directory ∧
      Function.update m p (some (.file bytes)) = m' := by
  rw [put, change_eq_some]
  constructor
  · rintro ⟨p, e, hslot, he, hupdate⟩
    split at he
    · cases he
    · obtain rfl := Option.some.inj he
      exact ⟨p, hslot, ‹_›, hupdate⟩
  · rintro ⟨p, hslot, hfile, hupdate⟩
    refine ⟨p, _, hslot, ?_, hupdate⟩
    split
    · exact absurd ‹_› hfile
    · rfl

theorem remove_eq_some : m.remove path = some m' ↔
    ∃ p data, m.slot? path = some p ∧ m p = some (.file data) ∧ Function.update m p none = m' := by
  rw [remove, change_eq_some]
  constructor
  · rintro ⟨p, e, hslot, he, hupdate⟩
    split at he
    · obtain rfl := Option.some.inj he
      exact ⟨p, _, hslot, ‹_›, hupdate⟩
    · cases he
  · rintro ⟨p, data, hslot, hfile, hupdate⟩
    exact ⟨p, _, hslot, by rw [hfile], hupdate⟩

/-- Whether a file can be put somewhere does not depend on what is in it. -/
theorem put_eq_none (h : m.put path bytes = none) (bytes' : Bytes) : m.put path bytes' = none := by
  refine Option.eq_none_iff_forall_ne_some.2 fun m' hput ↦ ?_
  obtain ⟨p, hslot, hfile, -⟩ := put_eq_some.1 hput
  have hsome : m.put path bytes = some (Function.update m p (some (.file bytes))) :=
    put_eq_some.2 ⟨p, hslot, hfile, rfl⟩
  rw [h] at hsome
  cases hsome

theorem Grows.makeDirectory (h : m.makeDirectory path = some m') : m.Grows m' := by
  obtain ⟨p, -, hnone, rfl⟩ := makeDirectory_eq_some.1 h
  intro q
  rcases eq_or_ne q p with rfl | hne
  · exact Or.inr ⟨hnone, Function.update_self ..⟩
  · exact Or.inl (Function.update_of_ne hne ..)

theorem Grows.descend (above : Path) (segments : List String) (m : Catalog) :
    m.Grows (descend above segments m).2 := by
  induction segments generalizing above m with
  | nil => exact .refl m
  | cons segment rest ih =>
    rw [Catalog.descend]
    split
    · exact ih _ _
    · split
      case h_1 hmake => exact (Grows.makeDirectory hmake).trans (ih _ _)
      case h_2 => exact .refl m

/-- **Making directories only adds directories**, whether it comes to the end or not. -/
theorem Grows.makeDirectories (m : Catalog) (path : Path) :
    m.Grows (m.makeDirectories path).2 := by
  rw [Catalog.makeDirectories]
  split
  · exact Grows.descend Path.root path.segments m
  · exact .refl m

/-! ### What changes leave findable -/

/-- What was there is still there, and directories are still directories. -/
def Persists (m m' : Catalog) : Prop :=
  ∀ p, m p ≠ none → m' p ≠ none ∧ (m p = some .directory → m' p = some .directory)

theorem Grows.persists (h : m.Grows m') : m.Persists m' := by
  intro p hsome
  rcases h p with hp | ⟨hnone, -⟩
  · rw [hp]
    exact ⟨hsome, id⟩
  · exact absurd hnone hsome

theorem Persists.put (h : m.put path bytes = some m') : m.Persists m' := by
  obtain ⟨p, -, hfile, rfl⟩ := put_eq_some.1 h
  intro q hsome
  rcases eq_or_ne q p with rfl | hne
  · rw [Function.update_self]
    exact ⟨Option.some_ne_none _, fun hdirectory ↦ absurd hdirectory hfile⟩
  · rw [Function.update_of_ne hne]
    exact ⟨hsome, id⟩

/-- A step that can be taken can still be taken. -/
theorem Persists.step (h : m.Persists m') {segment : String} (hstep : m.step p segment = some q) :
    m'.step p segment = some q := by
  rw [Catalog.step] at hstep
  split at hstep
  case isFalse => cases hstep
  case isTrue hdirectory =>
    have hdirectory' : m' p = some .directory :=
      (h p (hdirectory ▸ Option.some_ne_none _)).2 hdirectory
    rw [Catalog.step, if_pos hdirectory']
    split at hstep
    case isTrue hup =>
      rw [if_pos hup]
      exact hstep
    case isFalse hname =>
      split at hstep
      case isTrue => cases hstep
      case isFalse hsome =>
        rw [if_neg hname, if_neg (h _ hsome).1]
        exact hstep

theorem Persists.foldlM_step (h : m.Persists m') {segments : List String}
    (hfold : segments.foldlM m.step p = some q) : segments.foldlM m'.step p = some q := by
  induction segments generalizing p with
  | nil => exact hfold
  | cons segment rest ih =>
    rw [List.foldlM_cons] at hfold ⊢
    obtain ⟨next, hnext, hrest⟩ := Option.bind_eq_some_iff.1 hfold
    exact Option.bind_eq_some_iff.2 ⟨next, h.step hnext, ih hrest⟩

/-- What a path denotes is still what it denotes. -/
theorem Persists.denoted? (h : m.Persists m') (hpath : m.denoted? path = some q) :
    m'.denoted? path = some q :=
  h.foldlM_step hpath

theorem slot?_eq_some : m.slot? path = some p ↔
    ∃ above name q, path.segments = above ++ [name] ∧ name ≠ Path.parentName ∧
      m.denoted? ⟨path.absolute, above⟩ = some q ∧ m q = some .directory ∧
      p = q.below name := by
  obtain ⟨absolute, segments⟩ := path
  rcases segments.eq_nil_or_concat' with rfl | ⟨above, name, rfl⟩
  · simp [slot?]
  · rcases hq : m.denoted? ⟨absolute, above⟩ with - | q
    · simp [slot?, hq]
    · by_cases hname : name = Path.parentName
      · simp [slot?, hq, hname]
      · by_cases hdirectory : m q = some .directory <;>
          simp [slot?, hq, hname, hdirectory, eq_comm]

/-- Once there is an entry where a path changes the catalog, the path denotes this entry. -/
theorem Persists.denoted?_of_slot? (h : m.Persists m') (hslot : m.slot? path = some p)
    (hp : m' p ≠ none) : m'.denoted? path = some p := by
  obtain ⟨above, name, q, habove, hname, hq, hdirectory, rfl⟩ := slot?_eq_some.1 hslot
  have hq' : above.foldlM m'.step Path.root = some q := h.denoted? hq
  have hdirectory' : m' q = some .directory :=
    (h q (hdirectory ▸ Option.some_ne_none _)).2 hdirectory
  have hstep : m'.step q name = some (q.below name) := by
    rw [Catalog.step, if_pos hdirectory', if_neg hname]
    exact if_neg hp
  rw [Catalog.denoted?, habove, List.foldlM_append, hq']
  simpa using hstep

theorem denoted?_descend {segments : List String} {above : Path}
    (hplain : ∀ segment ∈ segments, Path.Plain segment) (habove : m.denoted? above ≠ none)
    (hdone : (descend above segments m).1 = some ()) :
    (descend above segments m).2.denoted? ⟨above.absolute, above.segments ++ segments⟩ ≠ none := by
  induction segments generalizing above m with
  | nil =>
    rw [List.append_nil]
    exact habove
  | cons segment rest ih =>
    have hrest : ∀ segment ∈ rest, Path.Plain segment :=
      fun next hnext ↦ hplain next (List.mem_cons_of_mem _ hnext)
    have hchild : above.child segment = ⟨above.absolute, above.segments ++ [segment]⟩ := by
      rw [Path.child, (hplain segment List.mem_cons_self).split_eq]
    have hsegments : above.segments ++ segment :: rest =
        (above.child segment).segments ++ rest := by
      rw [hchild, List.append_assoc, List.singleton_append]
    rw [descend] at hdone ⊢
    rw [hsegments]
    split at hdone
    case h_1 q hq => exact ih hrest (hq ▸ Option.some_ne_none q) hdone
    case h_2 =>
      split at hdone
      case h_2 => cases hdone
      case h_1 made hmake =>
        -- the directory that was made is what the path to it denotes now
        obtain ⟨p, hslot, -, hmade⟩ := makeDirectory_eq_some.1 hmake
        have hp : made p ≠ none := by
          rw [← hmade, Function.update_self]
          exact Option.some_ne_none _
        have hfound := (Grows.makeDirectory hmake).persists.denoted?_of_slot? hslot hp
        exact ih hrest (hfound ▸ Option.some_ne_none p) hdone

/-- **Once directories were made along a path, the path denotes something.** -/
theorem denoted?_makeDirectories (hpath : path.WellFormed)
    (h : (m.makeDirectories path).1 = some ()) :
    (m.makeDirectories path).2.denoted? path ≠ none := by
  obtain ⟨absolute, segments⟩ := path
  rw [makeDirectories] at h ⊢
  split at h
  case isFalse => cases h
  case isTrue habsolute =>
    obtain rfl : absolute = true := habsolute
    exact denoted?_descend hpath (Option.some_ne_none Path.root) h

end Catalog

end ModuleBundler
