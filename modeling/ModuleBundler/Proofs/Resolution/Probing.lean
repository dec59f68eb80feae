import Mathlib.Data.List.Find
import Mathlib.Data.List.Forall2
import ModuleBundler.Proofs.Store.Resolving
import ModuleBundler.Resolution.Locate

/-!
# Where a relative request leads

To find the file that a request stands for, `Locate.locate` has the store resolve one candidate
after the other. Read as a path, however, the request names one place, and the candidates name
places around it: the place itself, the same with more at the end of its name, and the index files
inside (`Locate.probes`). They differ from the request in their last segments only. So the way to
all of them is the way of the request, and is open for all or for none of them; and once it is open,
the first of the places where a file stands is the answer (`MemoryStore.InUse.locate_iff_probes`).

A request that ends in a step up, or that names the directory it is made in, has no name that
anything could be added to.
-/

namespace ModuleBundler

/-- The path with more at the end of its last name. -/
def Path.appended (p : Path) (suffix : String) : Path :=
  match p.segments.getLast? with
  | some name => ⟨p.absolute, p.segments.dropLast ++ [name ++ suffix]⟩
  | none => p

/-- Whether an entry is a file. -/
def Entry.isFile : Entry → Bool
  | .file _ => true
  | .directory => false

/-- Whether a file stands at a path. -/
def Catalog.hasFile (m : Catalog) (p : Path) : Bool :=
  (m p).any Entry.isFile

/-- Two catalogs have both nothing at a path, or both a directory, or both a file. -/
def Catalog.SameKindAt (m m' : Catalog) (p : Path) : Prop :=
  (m p).map Entry.isFile = (m' p).map Entry.isFile

namespace Catalog

variable {m m' : Catalog} {p : Path}

theorem hasFile_iff : m.hasFile p = true ↔ ∃ data, m p = some (.file data) := by
  rw [hasFile]
  rcases m p with - | - | data <;> simp [Entry.isFile]

theorem SameKindAt.symm (h : m.SameKindAt m' p) : m'.SameKindAt m p :=
  Eq.symm h

theorem SameKindAt.hasFile (h : m.SameKindAt m' p) : m.hasFile p = m'.hasFile p := by
  have hkind : (m p).map Entry.isFile = (m' p).map Entry.isFile := h
  have hany : ((m p).map Entry.isFile).any id = ((m' p).map Entry.isFile).any id := by rw [hkind]
  rwa [Option.any_map, Option.any_map] at hany

theorem SameKindAt.directory (h : m.SameKindAt m' p) (hp : m p = some .directory) :
    m' p = some .directory := by
  rw [SameKindAt, hp] at h
  rcases hentry : m' p with - | - | data <;> simp [hentry, Entry.isFile] at h ⊢

theorem SameKindAt.ne_none (h : m.SameKindAt m' p) (hp : m p ≠ none) : m' p ≠ none := by
  intro hnone
  rw [SameKindAt, hnone, Option.map_none, Option.map_eq_none_iff] at h
  exact hp h

/-- A way is open wherever there are directories in the same places. -/
theorem Passable.of_sameKind {segments : List String} (h : m.Passable segments)
    (hkind : ∀ front d, front <+: segments → front ≠ segments →
      Path.normalize ⟨true, front⟩ = .ok d → m.SameKindAt m' d) : m'.Passable segments := by
  intro front hfront hne
  obtain ⟨d, hd, hdirectory⟩ := h front hfront hne
  exact ⟨d, hd, (hkind front d hfront hne hd).directory hdirectory⟩

end Catalog

theorem Path.join_concat (directory : Path) (absolute : Bool) (front : List String)
    (name : String) :
    (directory.join ⟨absolute, front ++ [name]⟩).segments =
      (directory.join ⟨absolute, front⟩).segments ++ [name] := by
  rw [Path.join, Path.join]
  split
  · rfl
  · exact (List.append_assoc ..).symm

theorem Path.appended_below (p : Path) (name suffix : String) :
    (p.below name).appended suffix = p.below (name ++ suffix) := by
  simp [Path.below, Path.appended]

namespace Locate

/-- What a request may leave out at its end, the preferred ones first. -/
def suffixes : List String :=
  [".ts", ".tsx", ".mts", ".cts", ".js", ".jsx", ".mjs", ".cjs"]

/-- Whether a request ends in a name. -/
def isNamed (request : Path) : Bool :=
  request.segments.getLast?.any (· != Path.parentName)

/-- The places where the file may stand that a request stands for, the preferred ones first. The
request reads as `place`. -/
def probes (request place : Path) : List Path :=
  place :: ((if isNamed request then suffixes.map place.appended else []) ++
    suffixes.map fun suffix ↦ place.below ("index" ++ suffix))

section

variable {request : Path} {front : List String} {name suffix : String}

theorem exists_of_isNamed (h : isNamed request = true) :
    ∃ front name, request.segments = front ++ [name] ∧ name ≠ Path.parentName := by
  obtain ⟨name, hlast, hname⟩ := Option.any_eq_true _ _ |>.1 h
  exact ⟨_, name, (List.dropLast_append_getLast? name hlast).symm, bne_iff_ne.1 hname⟩

theorem suffixes_eq : suffixes = extensions.map ("." ++ ·) :=
  rfl

theorem indexFiles_eq : indexFiles = suffixes.map ("index" ++ ·) := by
  decide

/-- What is added to a name makes no step up of it. -/
theorem append_ne_parentName (h : suffix ∈ suffixes) (name : String) :
    name ++ suffix ≠ Path.parentName := by
  have hlong : ∀ suffix ∈ suffixes, 2 < suffix.length := by decide
  intro heq
  have hlength := congrArg String.length heq
  rw [String.length_append, show Path.parentName.length = 2 from rfl] at hlength
  have := hlong suffix h
  omega

/-- Index files have names that a path can have. -/
theorem plain_index : ∀ suffix ∈ suffixes,
    Path.Plain ("index" ++ suffix) ∧ "index" ++ suffix ≠ Path.parentName := by
  decide

theorem extended_eq (hsegments : request.segments = front ++ [name])
    (hname : name ≠ Path.parentName) :
    extended request =
      suffixes.map fun suffix ↦ ⟨request.absolute, front ++ [name ++ suffix]⟩ := by
  have hextension : ∀ extension, (request.withExtension extension).toOption =
      some ⟨request.absolute, front ++ [name ++ ("." ++ extension)]⟩ := by
    intro extension
    rw [Path.withExtension, Path.basename_eq_ok.2 ⟨front, hsegments⟩, Path.parent_eq hsegments,
      ← String.append_assoc]
    rfl
  rw [extended, hsegments, List.getLast?_concat]
  simp only [if_neg hname, hextension, suffixes_eq, List.map_map]
  exact congrFun List.filterMap_eq_map' extensions

theorem extended_eq_nil (h : isNamed request = false) : extended request = [] := by
  rw [extended]
  rcases hlast : request.segments.getLast? with - | name
  · rfl
  · have hname : name = Path.parentName := by simpa [isNamed, hlast] using h
    exact if_pos hname

/-- Where two lists are found in step, the first of the one decides which is the first of the
other. -/
theorem findSome?_eq_find? {α β : Type} {f : α → Option β} {test : β → Bool} {as : List α}
    {bs : List β} (h : List.Forall₂ (fun a b ↦ f a = if test b then some b else none) as bs) :
    as.findSome? f = bs.find? test := by
  induction h with
  | nil => rfl
  | @cons a b as bs hab _ ih =>
    rw [List.findSome?_cons, List.find?_cons, hab, ih]
    rcases test b <;> rfl

/-- What a request leads to is the first candidate that is found. -/
theorem locate_eq_ok_iff {σ : Type} [FileStore σ] {s : σ} {directory p : Path} :
    locate directory request s = .ok p ↔
      (request :: candidates request).findSome? (file? directory s) = some p := by
  rw [locate]
  split
  case h_1 found hfound => simp [hfound]
  case h_2 hnone =>
    rw [hnone]
    rcases FileStore.resolve directory request s with e | found <;> simp [invalid]

/-- The candidates are the request itself, the request with each suffix, and the index files. -/
theorem mem_candidates {candidate : Path} (h : candidate ∈ request :: candidates request) :
    candidate = request ∨
      (∃ front name suffix, request.segments = front ++ [name] ∧ name ≠ Path.parentName ∧
        suffix ∈ suffixes ∧ candidate = ⟨request.absolute, front ++ [name ++ suffix]⟩) ∨
      ∃ suffix ∈ suffixes, candidate = request.child ("index" ++ suffix) := by
  rcases List.mem_cons.1 h with h | h
  · exact Or.inl h
  · rcases List.mem_append.1 h with h | h
    · rcases hnamed : isNamed request
      · rw [extended_eq_nil hnamed] at h
        cases h
      · obtain ⟨front, name, hsegments, hname⟩ := exists_of_isNamed hnamed
        rw [extended_eq hsegments hname] at h
        obtain ⟨suffix, hsuffix, rfl⟩ := List.mem_map.1 h
        exact Or.inr (Or.inl ⟨front, name, suffix, hsegments, hname, hsuffix, rfl⟩)
    · rw [indexed, indexFiles_eq, List.map_map] at h
      obtain ⟨suffix, hsuffix, rfl⟩ := List.mem_map.1 h
      exact Or.inr (Or.inr ⟨suffix, hsuffix, rfl⟩)

end

end Locate

namespace MemoryStore

variable {s s' : MemoryStore} {directory request candidate place p q : Path}
  {front : List String} {name suffix : String} {e : Error}

namespace Tree

/-! ### Candidates and places -/

/-- A candidate is found where it resolves to a file. -/
theorem file?_eq_some (h : s.Tree) : Locate.file? directory s candidate = some q ↔
    FileStore.resolve directory candidate s = .ok q ∧ s.catalog.hasFile q = true := by
  have hfile : ∀ {p}, FileStore.resolve directory candidate s = .ok p →
      (FileStore.isFile p s = true ↔ s.catalog.hasFile p = true) := by
    intro p hp
    rw [isFile_eq_true, Catalog.hasFile]
    simp only [h.contentAt_iff, h.resolve_root_of_resolve hp, Except.ok.injEq, exists_eq_left']
    rcases s.catalog p with - | - | data <;> simp [Entry.isFile]
  rw [Locate.file?]
  rcases hresolve : FileStore.resolve directory candidate s with e | p
  · simp
  · rw [Except.ok.injEq]
    simp only [hfile hresolve]
    constructor
    · intro hq
      split at hq
      · obtain rfl := Option.some.inj hq
        exact ⟨rfl, ‹_›⟩
      · cases hq
    · rintro ⟨rfl, hp⟩
      exact if_pos hp

/-- What is above something that exists is a directory. -/
theorem catalog_of_below (h : s.Tree) (hp : Path.normalize ⟨true, front⟩ = .ok p)
    (hbelow : s.catalog (p.below name) ≠ none) : s.catalog p = some .directory := by
  obtain ⟨left, -, rfl⟩ := Path.normalize_eq_ok.1 hp
  have habove := h.catalog_dropLast hbelow (by simp [Path.below])
  rwa [Path.below, List.dropLast_concat] at habove

/-- A request that ends in a name leads to the entry of this name in the place where the rest of it
leads. -/
theorem resolve_concat (h : s.Tree) {absolute : Bool} (hname : name ≠ Path.parentName) :
    FileStore.resolve directory ⟨absolute, front ++ [name]⟩ s = .ok q ↔
      s.catalog.Passable (directory.join ⟨absolute, front⟩).segments ∧
        ∃ place, Path.normalize ⟨true, (directory.join ⟨absolute, front⟩).segments⟩ = .ok place ∧
          place.below name = q ∧ s.catalog q ≠ none := by
  rw [h.resolve_iff, Path.join_concat, Catalog.passable_concat, Path.normalize_concat]
  constructor
  · rintro ⟨⟨hway, -⟩, ⟨place, hplace, hnext⟩, hexists⟩
    rw [Path.next?_of_ne hname] at hnext
    exact ⟨hway, place, hplace, Option.some.inj hnext, hexists⟩
  · rintro ⟨hway, place, hplace, rfl, hexists⟩
    exact ⟨⟨hway, place, hplace, h.catalog_of_below hplace hexists⟩,
      ⟨place, hplace, Path.next?_of_ne hname⟩, hexists⟩

/-- An entry in what a request names is reached by the way of the request. -/
theorem resolve_child (h : s.Tree) (hplain : Path.Plain name) (hname : name ≠ Path.parentName) :
    FileStore.resolve directory (request.child name) s = .ok q ↔
      s.catalog.Passable (directory.join request).segments ∧
        ∃ place, Path.normalize ⟨true, (directory.join request).segments⟩ = .ok place ∧
          place.below name = q ∧ s.catalog q ≠ none := by
  rw [Path.child, hplain.split_eq]
  exact h.resolve_concat hname

/-- What a request with more at the end of its name leads to is reached by the way of the request,
and stands beside what the request names. -/
theorem resolve_appended (h : s.Tree) (hsegments : request.segments = front ++ [name])
    (hname : name ≠ Path.parentName) (hsuffix : suffix ∈ Locate.suffixes) :
    FileStore.resolve directory ⟨request.absolute, front ++ [name ++ suffix]⟩ s = .ok q ↔
      s.catalog.Passable (directory.join request).segments ∧
        ∃ place, Path.normalize ⟨true, (directory.join request).segments⟩ = .ok place ∧
          place.appended suffix = q ∧ s.catalog q ≠ none := by
  obtain ⟨absolute, segments⟩ := request
  obtain rfl : segments = front ++ [name] := hsegments
  rw [h.resolve_concat (Locate.append_ne_parentName hsuffix name), Path.join_concat,
    Catalog.passable_concat]
  simp only [Path.normalize_concat, Path.next?_of_ne hname]
  constructor
  · rintro ⟨hway, place, hplace, rfl, hexists⟩
    exact ⟨⟨hway, place, hplace, h.catalog_of_below hplace hexists⟩, place.below name,
      ⟨place, hplace, rfl⟩, place.appended_below name suffix, hexists⟩
  · rintro ⟨⟨hway, -⟩, _, ⟨place, hplace, hnext⟩, rfl, hexists⟩
    obtain rfl : place.below name = _ := Option.some.inj hnext
    exact ⟨hway, place, hplace, (place.appended_below name suffix).symm, hexists⟩

/-- Whatever candidate resolves, the way of the request is open. -/
theorem passable_of_resolve (h : s.Tree) (hmem : candidate ∈ request :: Locate.candidates request)
    (hq : FileStore.resolve directory candidate s = .ok q) :
    s.catalog.Passable (directory.join request).segments ∧
      ∃ place, Path.normalize ⟨true, (directory.join request).segments⟩ = .ok place := by
  rcases Locate.mem_candidates hmem with rfl |
    ⟨front, name, suffix, hsegments, hname, hsuffix, rfl⟩ | ⟨suffix, hsuffix, rfl⟩
  · obtain ⟨hway, hplace, -⟩ := h.resolve_iff.1 hq
    exact ⟨hway, q, hplace⟩
  · obtain ⟨hway, place, hplace, -⟩ := (h.resolve_appended hsegments hname hsuffix).1 hq
    exact ⟨hway, place, hplace⟩
  · have hindex := Locate.plain_index suffix hsuffix
    obtain ⟨hway, place, hplace, -⟩ := (h.resolve_child hindex.1 hindex.2).1 hq
    exact ⟨hway, place, hplace⟩

/-- A candidate that names the place `p` is found if there is a file. -/
theorem file?_eq_ite (h : s.Tree)
    (hp : ∀ q, FileStore.resolve directory candidate s = .ok q ↔ p = q ∧ s.catalog q ≠ none) :
    Locate.file? directory s candidate = if s.catalog.hasFile p then some p else none := by
  refine Option.ext fun q ↦ ?_
  rw [h.file?_eq_some, hp]
  constructor
  · rintro ⟨⟨rfl, -⟩, hfile⟩
    exact if_pos hfile
  · intro hq
    split at hq
    · obtain rfl := Option.some.inj hq
      have hfile : s.catalog.hasFile p = true := ‹_›
      refine ⟨⟨rfl, fun hnone ↦ ?_⟩, hfile⟩
      simp [Catalog.hasFile, hnone] at hfile
    · cases hq

/-- Once the way is open, each candidate names its place. -/
theorem forall₂_file? (h : s.Tree) (hway : s.catalog.Passable (directory.join request).segments)
    (hplace : Path.normalize ⟨true, (directory.join request).segments⟩ = .ok place) :
    List.Forall₂
      (fun candidate p ↦ Locate.file? directory s candidate =
        if s.catalog.hasFile p then some p else none)
      (request :: Locate.candidates request) (Locate.probes request place) := by
  refine .cons (h.file?_eq_ite fun q ↦ ?_) (List.rel_append ?_ ?_)
  · rw [h.resolve_iff, hplace, Except.ok.injEq]
    exact and_iff_right hway
  · rcases hnamed : Locate.isNamed request
    · rw [Locate.extended_eq_nil hnamed]
      exact .nil
    · obtain ⟨front, name, hsegments, hname⟩ := Locate.exists_of_isNamed hnamed
      rw [Locate.extended_eq hsegments hname, if_pos rfl, List.forall₂_map_left_iff,
        List.forall₂_map_right_iff, List.forall₂_same]
      intro suffix hsuffix
      refine h.file?_eq_ite fun q ↦ ?_
      rw [h.resolve_appended hsegments hname hsuffix, hplace]
      simp [hway]
  · rw [Locate.indexed, Locate.indexFiles_eq, List.map_map, List.forall₂_map_left_iff,
      List.forall₂_map_right_iff, List.forall₂_same]
    intro suffix hsuffix
    have hindex := Locate.plain_index suffix hsuffix
    refine h.file?_eq_ite fun q ↦ ?_
    rw [Function.comp_apply, h.resolve_child hindex.1 hindex.2, hplace]
    simp [hway]

/-- What a request leads to is what one of the candidates resolves to. -/
theorem exists_candidate (h : s.Tree)
    (hp : (request :: Locate.candidates request).findSome? (Locate.file? directory s) = some p) :
    ∃ candidate ∈ request :: Locate.candidates request,
      FileStore.resolve directory candidate s = .ok p ∧ s.catalog.hasFile p = true := by
  obtain ⟨candidate, hmem, hcandidate⟩ := List.exists_of_findSome?_eq_some hp
  exact ⟨candidate, hmem, h.file?_eq_some.1 hcandidate⟩

/-- **The first place with a file is the answer**, if the way to it is open. -/
theorem locate_eq_ok (h : s.Tree) : Locate.locate directory request s = .ok p ↔
    s.catalog.Passable (directory.join request).segments ∧
      ∃ place, Path.normalize ⟨true, (directory.join request).segments⟩ = .ok place ∧
        (Locate.probes request place).find? s.catalog.hasFile = some p := by
  rw [Locate.locate_eq_ok_iff]
  constructor
  · intro hp
    obtain ⟨candidate, hmem, hresolve, -⟩ := h.exists_candidate hp
    obtain ⟨hway, place, hplace⟩ := h.passable_of_resolve hmem hresolve
    rw [Locate.findSome?_eq_find? (h.forall₂_file? hway hplace)] at hp
    exact ⟨hway, place, hplace, hp⟩
  · rintro ⟨hway, place, hplace, hp⟩
    rw [Locate.findSome?_eq_find? (h.forall₂_file? hway hplace)]
    exact hp

/-- A request leads to a file, by a path that leads nowhere up. -/
theorem isCanonical_and_file_of_locate (h : s.Tree)
    (hp : Locate.locate directory request s = .ok p) :
    p.isCanonical = true ∧ ∃ data, s.catalog p = some (.file data) := by
  obtain ⟨candidate, -, hresolve, hfile⟩ := h.exists_candidate (Locate.locate_eq_ok_iff.1 hp)
  exact ⟨Path.isCanonical_of_normalize (h.resolve_iff.1 hresolve).2.1,
    Catalog.hasFile_iff.1 hfile⟩

/-- What resolves in one store resolves in any other that has the same kinds of entries. -/
theorem resolve_of_sameKind (h : s.Tree) (h' : s'.Tree)
    (hkind : ∀ p, s.catalog.SameKindAt s'.catalog p) {context relative : Path}
    (hq : FileStore.resolve context relative s = .ok q) :
    FileStore.resolve context relative s' = .ok q := by
  obtain ⟨hway, hplace, hexists⟩ := h.resolve_iff.1 hq
  exact h'.resolve_iff.2
    ⟨hway.of_sameKind fun _ d _ _ _ ↦ hkind d, hplace, (hkind q).ne_none hexists⟩

/-- What is found in one store is found in any other that has directories on the way and the same
kinds of entries in the places that are looked at. -/
theorem locate_of_sameKind (h : s.Tree) (h' : s'.Tree)
    (hway : ∀ front d, front <+: (directory.join request).segments →
      front ≠ (directory.join request).segments → Path.normalize ⟨true, front⟩ = .ok d →
      s.catalog.SameKindAt s'.catalog d)
    (hprobes : ∀ place p, Path.normalize ⟨true, (directory.join request).segments⟩ = .ok place →
      p ∈ Locate.probes request place → s.catalog.SameKindAt s'.catalog p)
    (hp : Locate.locate directory request s = .ok p) :
    Locate.locate directory request s' = .ok p := by
  obtain ⟨hopen, place, hplace, hfind⟩ := h.locate_eq_ok.1 hp
  refine h'.locate_eq_ok.2 ⟨hopen.of_sameKind hway, place, hplace, ?_⟩
  rw [← hfind]
  exact (List.find?_congr fun p hmem ↦ (hprobes place p hplace hmem).hasFile).symm

end Tree

/-- A request that stands for no file is an invalid path. -/
theorem locate_eq_error (h : Locate.locate directory request s = .error e) :
    ∃ cause, e = .invalidPath cause := by
  rw [Locate.locate] at h
  split at h
  · cases h
  · split at h
    · exact ⟨_, (Except.error.inj h).symm⟩
    · exact Except.error.inj h ▸ resolve_eq_error ‹_›

/-- **A relative request leads to the first place with a file.** Fronts of the directory and the
request, but not the whole, have to read as paths of directories, and the whole has to read as a
place; then the first of the places around it where a file stands is the answer, and any other
request is invalid. So the answer is a file, by a path that leads nowhere up, and it is the same in
all stores that have the same kinds of entries on the way and in these places. -/
theorem InUse.locate_iff_probes (h : s.InUse) (directory request : Path) :
    (∀ p, Locate.locate directory request s = .ok p ↔
      s.catalog.Passable (directory.join request).segments ∧
        ∃ place, Path.normalize ⟨true, (directory.join request).segments⟩ = .ok place ∧
          (Locate.probes request place).find? s.catalog.hasFile = some p) ∧
    (∀ e, Locate.locate directory request s = .error e → ∃ cause, e = .invalidPath cause) ∧
    (∀ p, Locate.locate directory request s = .ok p →
      p.isCanonical = true ∧ ∃ data, s.catalog p = some (.file data)) ∧
    ∀ s' : MemoryStore, s'.InUse →
      (∀ front d, front <+: (directory.join request).segments →
        front ≠ (directory.join request).segments → Path.normalize ⟨true, front⟩ = .ok d →
        s.catalog.SameKindAt s'.catalog d) →
      (∀ place p, Path.normalize ⟨true, (directory.join request).segments⟩ = .ok place →
        p ∈ Locate.probes request place → s.catalog.SameKindAt s'.catalog p) →
      ∀ p, Locate.locate directory request s' = .ok p ↔
        Locate.locate directory request s = .ok p := by
  refine ⟨fun p ↦ h.tree.locate_eq_ok, fun e ↦ locate_eq_error,
    fun p ↦ h.tree.isCanonical_and_file_of_locate, fun s' h' hway hprobes p ↦ ⟨?_, ?_⟩⟩
  · exact h'.tree.locate_of_sameKind h.tree
      (fun front d hfront hne hd ↦ (hway front d hfront hne hd).symm)
      fun place p hplace hmem ↦ (hprobes place p hplace hmem).symm
  · exact h.tree.locate_of_sameKind h'.tree hway hprobes

/-- A request that leaves out the end of a name, and goes up on its way. -/
theorem locate_iff_probes_nestedStore : nestedStore.InUse ∧
    Locate.locate ⟨true, ["lib", "core"]⟩ ⟨false, ["..", "core", "b"]⟩ nestedStore =
      .ok ⟨true, ["lib", "core", "b.ts"]⟩ ∧
    nestedStore.catalog.Passable ["lib", "core", "..", "core", "b"] ∧
    ∃ place, Path.normalize ⟨true, ["lib", "core", "..", "core", "b"]⟩ = .ok place ∧
      (Locate.probes ⟨false, ["..", "core", "b"]⟩ place).find? nestedStore.catalog.hasFile =
        some ⟨true, ["lib", "core", "b.ts"]⟩ := by
  have hlocate : Locate.locate ⟨true, ["lib", "core"]⟩ ⟨false, ["..", "core", "b"]⟩ nestedStore =
      .ok ⟨true, ["lib", "core", "b.ts"]⟩ := by decide +kernel
  have hiff := (inUse_nestedStore.locate_iff_probes ⟨true, ["lib", "core"]⟩
    ⟨false, ["..", "core", "b"]⟩).1 ⟨true, ["lib", "core", "b.ts"]⟩
  exact ⟨inUse_nestedStore, hlocate, hiff.1 hlocate⟩

end MemoryStore

end ModuleBundler
