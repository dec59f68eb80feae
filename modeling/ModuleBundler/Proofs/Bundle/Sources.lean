import ModuleBundler.Proofs.Bundle.Needed
import ModuleBundler.Proofs.Store.Reading

/-!
# What the files in memory say

A store in memory has a project of its own: what its files contain and what their references stand
for, said without a walk and without a store that changes. `BundleOptions.isFollowed`,
`BundleOptions.destination?` and `BundleOptions.isExternal` say what becomes of a reference, and
`BundleOptions.Fault` with which error one fails that becomes nothing.

`BundleOptions.describes_project` says that a walk through the store gets these answers, however far
it has gone. For this the resolver has to be a function of the tree (`BundleOptions.ReadsTree`): one
that counts the handles given out would tell the readings apart.
-/

namespace ModuleBundler

/-- What the file at a path says: its content and its references, if it can be read and they can be
extracted. -/
def MemoryStore.source [Engine] (s : MemoryStore) (path : Path) :
    Except Error (Bytes × List Reference) :=
  match (FileStore.load path s).1 with
  | .error e => .error e
  | .ok content =>
    (Reference.references path content (Engine.parse (.ofPath path) content none)).map
      fun references ↦ (content, references)

namespace BundleOptions

variable (options : BundleOptions MemoryStore) (s : MemoryStore)

/-- Whether a reference is followed: if it only uses types, this is up to the options. -/
def isFollowed (reference : Reference) : Bool :=
  !reference.typeOnly || options.followTypes

/-- What the resolver says about a package request made in `directory`, if there is one. -/
def answer? (directory : Path) (request : String) : Option (Except Error Resolution) :=
  options.resolver.map fun resolver ↦ resolver s directory request

/-- The module that a reference of a module in `directory` leads to, if it leads to one. -/
def destination? (directory : Path) (reference : Reference) : Option Path :=
  if !options.isFollowed reference then none
  else if reference.isRelative then (Locate.locate directory reference.path s).toOption
  else
    match options.answer? s directory reference.request with
    | some (.ok (.module path)) => some path
    | _ => none

/-- Whether a reference of a module in `directory` is left out of the bundle. -/
def isExternal (directory : Path) (reference : Reference) : Bool :=
  options.isFollowed reference && !reference.isRelative &&
    match options.answer? s directory reference.request with
    | some (.ok .external) => true
    | _ => false

/-- The error with which a reference of the module at `importer`, which stands in `directory`, leads
nowhere. -/
inductive Fault (importer directory : Path) (reference : Reference) : Error → Prop
  /-- A path that names no file. The error says who asked for it. -/
  | path {cause : PathFault} :
      options.isFollowed reference = true → reference.isRelative = true →
      Locate.locate directory reference.path s = .error (.invalidPath cause) →
      Fault importer directory reference (.invalidPath (.importedBy cause importer))
  /-- A path for which anything else goes wrong. -/
  | other {e : Error} :
      options.isFollowed reference = true → reference.isRelative = true →
      Locate.locate directory reference.path s = .error e → (∀ cause, e ≠ .invalidPath cause) →
      Fault importer directory reference e
  /-- A package at which the resolver fails. -/
  | resolver {e : Error} :
      options.isFollowed reference = true → reference.isRelative = false →
      options.answer? s directory reference.request = some (.error e) →
      Fault importer directory reference e
  /-- A package that the resolver does not know. -/
  | unresolved :
      options.isFollowed reference = true → reference.isRelative = false →
      options.answer? s directory reference.request = some (.ok .unresolved) →
      Fault importer directory reference (.unsupportedImport reference.request importer)
  /-- A package, where there is no resolver. -/
  | unsupported :
      options.isFollowed reference = true → reference.isRelative = false →
      options.answer? s directory reference.request = none →
      Fault importer directory reference (.unsupportedImport reference.request importer)

/-- What becomes of a reference. -/
def Answers (importer directory : Path) (reference : Reference) : Except Error Target → Prop
  | .ok .skipped => options.isFollowed reference = false
  | .ok .external => options.isExternal s directory reference = true
  | .ok (.module path) => options.destination? s directory reference = some path
  | .error e => options.Fault s importer directory reference e

/-- The project that the files of a store are. -/
def project [Engine] : Project where
  reads path answer := s.source path = answer
  leads importer reference answer :=
    ∃ directory, importer.parent = .ok directory ∧
      options.Answers s importer directory reference answer

variable {options s} {importer directory path : Path} {reference : Reference}

/-! ### What a reference resolves to -/

theorem not_isFollowed (options : BundleOptions MemoryStore) (reference : Reference) :
    (!options.isFollowed reference) = (reference.typeOnly && !options.followTypes) := by
  simp [isFollowed]

/-- A reference leads to the file that it stands for, or to what the resolver answers. -/
theorem destination?_eq_some :
    options.destination? s directory reference = some path ↔
      options.isFollowed reference = true ∧
        (reference.isRelative = true ∧ Locate.locate directory reference.path s = .ok path ∨
          reference.isRelative = false ∧
            options.answer? s directory reference.request = some (.ok (.module path))) := by
  rw [destination?]
  cases options.isFollowed reference with
  | false => simp
  | true =>
    cases reference.isRelative with
    | true =>
      rcases Locate.locate directory reference.path s with e | found <;>
        simp [Except.toOption]
    | false =>
      rcases options.answer? s directory reference.request with - | e | found | - | - <;> simp

theorem target_of_not_isFollowed (h : options.isFollowed reference = false) :
    options.target s importer directory reference = .ok .skipped := by
  rw [target, ← not_isFollowed, h]
  exact if_pos rfl

theorem target_of_isRelative (h : options.isFollowed reference = true)
    (hrelative : reference.isRelative = true) :
    options.target s importer directory reference =
      match Locate.locate directory reference.path s with
      | .ok path => .ok (.module path)
      | .error e => .error (e.importedBy importer) := by
  rw [target, ← not_isFollowed, h]
  exact (if_neg (by simp)).trans (if_pos hrelative)

theorem target_of_not_isRelative (h : options.isFollowed reference = true)
    (hrelative : reference.isRelative = false) :
    options.target s importer directory reference =
      match options.answer? s directory reference.request with
      | none => .error (.unsupportedImport reference.request importer)
      | some (.error e) => .error e
      | some (.ok (.module path)) => .ok (.module path)
      | some (.ok .external) => .ok .external
      | some (.ok .unresolved) => .error (.unsupportedImport reference.request importer) := by
  rw [target, ← not_isFollowed, h, if_neg (by simp), if_neg (by simp [hrelative]), packageTarget,
    answer?]
  rcases options.resolver with - | resolver
  · rfl
  · simp only [Option.map_some]
    rcases resolver s directory reference.request with e | path | - | - <;> rfl

/-- What resolving a reference answers becomes of it. -/
theorem answers_target :
    options.Answers s importer directory reference
      (options.target s importer directory reference) := by
  cases hfollowed : options.isFollowed reference with
  | false =>
    rw [target_of_not_isFollowed hfollowed]
    exact hfollowed
  | true =>
    cases hrelative : reference.isRelative with
    | true =>
      rw [target_of_isRelative hfollowed hrelative]
      rcases hlocate : Locate.locate directory reference.path s with e | path
      · cases e with
        | invalidPath cause => exact .path hfollowed hrelative hlocate
        | _ => exact .other hfollowed hrelative hlocate (by simp [Error.importedBy])
      · simp [Answers, destination?, hfollowed, hrelative, hlocate, Except.toOption]
    | false =>
      rw [target_of_not_isRelative hfollowed hrelative]
      rcases hanswer : options.answer? s directory reference.request with
        - | e | path | - | -
      · exact .unsupported hfollowed hrelative hanswer
      · exact .resolver hfollowed hrelative hanswer
      · simp [Answers, destination?, hfollowed, hrelative, hanswer]
      · simp [Answers, isExternal, hfollowed, hrelative, hanswer]
      · exact .unresolved hfollowed hrelative hanswer

/-- **Nothing else becomes of a reference** than what resolving it answers. -/
theorem Answers.eq_target {answer : Except Error Target}
    (h : options.Answers s importer directory reference answer) :
    answer = options.target s importer directory reference := by
  rcases answer with e | - | - | path
  · cases h with
    | path hfollowed hrelative hlocate =>
      rw [target_of_isRelative hfollowed hrelative, hlocate]
      rfl
    | other hfollowed hrelative hlocate hother =>
      rw [target_of_isRelative hfollowed hrelative, hlocate]
      cases e with
      | invalidPath cause => exact absurd rfl (hother cause)
      | _ => rfl
    | resolver hfollowed hrelative hanswer =>
      rw [target_of_not_isRelative hfollowed hrelative, hanswer]
    | unresolved hfollowed hrelative hanswer =>
      rw [target_of_not_isRelative hfollowed hrelative, hanswer]
    | unsupported hfollowed hrelative hanswer =>
      rw [target_of_not_isRelative hfollowed hrelative, hanswer]
  · exact (target_of_not_isFollowed h).symm
  · simp only [Answers, isExternal, Bool.and_eq_true, Bool.not_eq_true'] at h
    obtain ⟨⟨hfollowed, hrelative⟩, hexternal⟩ := h
    rw [target_of_not_isRelative hfollowed hrelative]
    split at hexternal
    · rw [‹options.answer? s directory reference.request = _›]
    · cases hexternal
  · obtain ⟨hfollowed, ⟨hrelative, hlocate⟩ | ⟨hrelative, hanswer⟩⟩ := destination?_eq_some.1 h
    · rw [target_of_isRelative hfollowed hrelative, hlocate]
    · rw [target_of_not_isRelative hfollowed hrelative, hanswer]

/-- A project of files has one answer to each question. -/
theorem functional_project [Engine] (options : BundleOptions MemoryStore) (s : MemoryStore) :
    (options.project s).Functional where
  reads h h' := Eq.trans (Eq.symm h) h'
  leads := by
    rintro importer reference answer answer' ⟨directory, hparent, h⟩ ⟨directory', hparent', h'⟩
    obtain rfl := Except.ok.inj (hparent.symm.trans hparent')
    exact h.eq_target.trans h'.eq_target.symm

/-! ### The answers that a walk gets -/

/-- The resolver looks at nothing but the tree of the store, the directory and the request. -/
def ReadsTree (options : BundleOptions MemoryStore) : Prop :=
  ∀ resolver, options.resolver = some resolver →
    ∀ s s' : MemoryStore, s.SameTree s' → resolver s = resolver s'

/-- The resolver looks at nothing but the directory and the request. -/
def IgnoresStore (options : BundleOptions MemoryStore) : Prop :=
  ∀ resolver, options.resolver = some resolver → ∀ s s' : MemoryStore, resolver s = resolver s'

theorem IgnoresStore.readsTree (h : options.IgnoresStore) : options.ReadsTree :=
  fun resolver hresolver s s' _ ↦ h resolver hresolver s s'

theorem ignoresStore_ofTable (packages : Option PackageTable) (followTypes : Bool) :
    IgnoresStore (.ofTable packages followTypes) := by
  intro resolver hresolver s s'
  obtain ⟨table, -, rfl⟩ := Option.map_eq_some_iff.1 hresolver
  rfl

theorem readsTree_ofTable (packages : Option PackageTable) (followTypes : Bool) :
    ReadsTree (.ofTable packages followTypes) :=
  (ignoresStore_ofTable packages followTypes).readsTree

/-- Where the resolver does not tell two stores apart, it answers the same. -/
theorem answer?_congr {s s' : MemoryStore}
    (h : ∀ resolver, options.resolver = some resolver → resolver s = resolver s') :
    options.answer? s' = options.answer? s := by
  funext directory request
  rw [answer?, answer?]
  rcases hresolver : options.resolver with - | resolver
  · rfl
  · rw [Option.map_some, Option.map_some, h resolver hresolver]

/-- Requests stand for the same in stores that resolve the same paths to the same files. -/
theorem locate_congr {s s' : MemoryStore}
    (hresolve : ∀ context relative, FileStore.resolve context relative s' =
      FileStore.resolve context relative s)
    (hfile : ∀ path, FileStore.isFile path s' = FileStore.isFile path s)
    (directory request : Path) :
    Locate.locate directory request s' = Locate.locate directory request s := by
  have hcandidate : Locate.file? directory s' = Locate.file? directory s := by
    funext path
    simp only [Locate.file?, hresolve, hfile]
  rw [Locate.locate, Locate.locate, hcandidate, hresolve]

/-- References add the same in stores where requests stand for the same, if the resolver does not
tell the stores apart. -/
theorem target_congr {s s' : MemoryStore}
    (hlocate : ∀ directory request, Locate.locate directory request s' =
      Locate.locate directory request s)
    (hresolver : ∀ resolver, options.resolver = some resolver → resolver s = resolver s') :
    options.target s' importer directory reference =
      options.target s importer directory reference := by
  have hpackage : options.packageTarget s' importer directory reference.request =
      options.packageTarget s importer directory reference.request := by
    rw [packageTarget, packageTarget]
    rcases hsome : options.resolver with - | resolver
    · rfl
    · simp only [hresolver resolver hsome]
  rw [target, target, hlocate, hpackage]

/-- Requests stand for the same in stores with the same tree. -/
theorem locate_of_sameTree {s s' : MemoryStore} (h : s.SameTree s') (directory request : Path) :
    Locate.locate directory request s' = Locate.locate directory request s :=
  locate_congr h.resolve h.isFile directory request

theorem target_of_sameTree {s s' : MemoryStore} (htree : options.ReadsTree) (h : s.SameTree s') :
    options.target s' importer directory reference =
      options.target s importer directory reference :=
  target_congr (locate_of_sameTree h) fun resolver hresolver ↦ htree resolver hresolver s s' h

end BundleOptions

/-- A relative request is no absolute path. -/
theorem Reference.absolute_path {reference : Reference} (h : reference.isRelative = true) :
    reference.path.absolute = false := by
  rw [isRelative, beq_iff_eq] at h
  rw [path, Path.parse, h]
  rfl

/-- Reading a module is reading its file, and extracting the references. -/
theorem Module.load_eq [Engine] {σ : Type} [FileStore σ] (path : Path) (s : σ) :
    Module.load path s =
      (match (FileStore.load path s).1 with
        | .error e => .error e
        | .ok content =>
          (Reference.references path content (Engine.parse (.ofPath path) content none)).map
            fun references ↦ { path, content, references },
        (FileStore.load path s).2) := by
  rw [Module.load, SourceFile.refresh]
  rcases FileStore.load path s with ⟨e | content, s'⟩ <;> rfl

namespace MemoryStore

variable {s s' : MemoryStore}

theorem Sound.source_of_sameTree [Engine] (hs : s.Sound) (hs' : s'.Sound) (h : s.SameTree s')
    (path : Path) :
    s'.source path = s.source path := by
  rw [source, source, hs.fst_load, hs'.fst_load, h.contentAt]

/-- A file says what its content says. -/
theorem Sound.source_eq_ok [Engine] (h : s.Sound) {path : Path} {content : Bytes}
    {references : List Reference} : s.source path = .ok (content, references) ↔
      s.contentAt path = .ok content ∧
        Reference.references path content (Engine.parse (.ofPath path) content none) =
          .ok references := by
  rw [source, h.fst_load]
  rcases s.contentAt path with e | data
  · simp
  · rcases hreferences : Reference.references path data (Engine.parse (.ofPath path) data none)
      with e | references'
    · simp only [hreferences, Except.map]
      refine ⟨nofun, ?_⟩
      rintro ⟨hdata, hok⟩
      obtain rfl := Except.ok.inj hdata
      simp [hreferences] at hok
    · simp only [hreferences, Except.map, Except.ok.injEq, Prod.mk.injEq]
      refine and_congr_right ?_
      rintro rfl
      rw [hreferences, Except.ok.injEq]

/-- A file that says something stands in a directory. -/
theorem Sound.exists_parent_of_source [Engine] (h : s.Sound) {path : Path} {content : Bytes}
    {references : List Reference} (hsource : s.source path = .ok (content, references)) :
    ∃ directory, path.parent = .ok directory :=
  h.exists_parent (h.source_eq_ok.1 hsource).1

/-- In memory, a module that can be read can be gone to. -/
theorem Sound.visited_eq [Engine] (h : s.Sound) (path : Path) :
    Module.visited path s = s.source path := by
  rw [Module.visited, Module.load_eq, source]
  rcases hload : (FileStore.load path s).1 with e | content
  · rfl
  · simp only
    rcases hreferences :
        Reference.references path content (Engine.parse (.ofPath path) content none)
      with e | references
    · rfl
    · obtain ⟨directory, hparent⟩ : ∃ directory, path.parent = .ok directory :=
        h.exists_parent (h.fst_load path ▸ hload)
      simp only [Except.map, hparent]

/-- All that reading a module changes is what number comes next. -/
theorem Sound.snd_load_module [Engine] (hs : s.Sound) (path : Path) :
    ∃ n, (Module.load path s).2 = s.skip n := by
  rw [Module.load_eq]
  exact hs.snd_load path

/-- Reading a module leads to a store with the same tree. -/
theorem Sound.load_module [Engine] (hs : s'.Sound) (h : s.SameTree s') (path : Path) :
    (Module.load path s').2.Sound ∧ s.SameTree (Module.load path s').2 := by
  obtain ⟨n, hload⟩ := hs.snd_load_module path
  rw [hload]
  exact ⟨hs.skip n, h.trans (s'.sameTree_skip n)⟩

/-- In every store with the same tree, a module reads the same. -/
theorem Sound.source_eq_visited [Engine] (hs : s.Sound) (hs' : s'.Sound) (h : s.SameTree s')
    (path : Path) :
    s.source path = Module.visited path s' := by
  rw [hs'.visited_eq]
  exact (hs.source_of_sameTree hs' h path).symm

/-- The file at `entry` opens, and `canonical` is its canonical path. -/
def Opens (s : MemoryStore) (entry canonical : Path) : Prop :=
  (∃ handle opened, FileStore.openFile entry s = .ok (handle, opened)) ∧
    FileStore.resolve Path.root entry s = .ok canonical

theorem Opens.unique {entry canonical canonical' : Path} (h : s.Opens entry canonical)
    (h' : s.Opens entry canonical') : canonical = canonical' :=
  Except.ok.inj (h.2.symm.trans h'.2)

theorem Opens.ne_error {entry canonical : Path} {e : Error} (h : s.Opens entry canonical) :
    FileStore.openFile entry s ≠ .error e := by
  obtain ⟨⟨handle, opened, hopen⟩, -⟩ := h
  simp [hopen]

/-- Looking up the canonical path of an entry: it opens, or it does not. -/
theorem Sound.entryPath_cases (h : s.Sound) (entry : Path) :
    (∃ e, FileStore.openFile entry s = .error e ∧ entryPath entry s = (.error e, s)) ∨
      ∃ canonical, s.Opens entry canonical ∧ entryPath entry s = (.ok canonical, s.skip 1) := by
  rcases hopen : FileStore.openFile entry s with e | ⟨handle, opened⟩
  · exact Or.inl ⟨e, rfl, by rw [entryPath, hopen]⟩
  · obtain ⟨id, data, hid, -, -, hreal, hclose⟩ := h.of_openFile hopen
    have hclose : FileStore.close handle opened = .ok (s.skip 1) := hclose
    refine Or.inr ⟨s.pathOf id, ⟨⟨handle, opened, hopen⟩, resolve_root hid⟩, ?_⟩
    rw [entryPath, hopen]
    simp only [hclose]
    exact Prod.ext hreal rfl

/-- The canonical path of an entry is the one that it opens with. -/
theorem Sound.fst_entryPath_eq_ok (h : s.Sound) {entry canonical : Path} :
    (entryPath entry s).1 = .ok canonical ↔ s.Opens entry canonical := by
  rcases h.entryPath_cases entry with ⟨e, hopen, hentry⟩ | ⟨start, hopens, hentry⟩
  · rw [hentry]
    exact iff_of_false nofun fun hopens ↦ hopens.ne_error hopen
  · rw [hentry, Except.ok.injEq]
    exact ⟨fun heq ↦ heq ▸ hopens, hopens.unique⟩

/-- All that looking up an entry changes is what number comes next. -/
theorem Sound.snd_entryPath (h : s.Sound) (entry : Path) :
    ∃ n, (entryPath entry s).2 = s.skip n := by
  rcases h.entryPath_cases entry with ⟨e, -, hentry⟩ | ⟨canonical, -, hentry⟩
  · exact ⟨0, by rw [hentry]; rfl⟩
  · exact ⟨1, by rw [hentry]⟩

/-- The walk from an entry starts with the tree of the store. -/
theorem Sound.entryPath (h : s.Sound) (entry : Path) :
    (entryPath entry s).2.Sound ∧ s.SameTree (entryPath entry s).2 := by
  obtain ⟨n, hentry⟩ := h.snd_entryPath entry
  rw [hentry]
  exact ⟨h.skip n, s.sameTree_skip n⟩

end MemoryStore

namespace BundleOptions

variable [Engine] {options : BundleOptions MemoryStore} {s : MemoryStore}

/-- **A walk gets the answers of the project**, in every store that it comes to. -/
theorem describes_project (hs : s.Sound) (htree : options.ReadsTree) :
    (options.project s).Describes options fun s' ↦ s'.Sound ∧ s.SameTree s' where
  keeps {path _} hs' := hs'.1.load_module hs'.2 path
  reads {path _} hs' := hs.source_eq_visited hs'.1 hs'.2 path
  leads {importer directory s' reference} hs' hparent := by
    refine ⟨directory, hparent, ?_⟩
    rw [target_of_sameTree htree hs'.2]
    exact answers_target

/-- A bundle that is collected is a walk through a project with the answers of the store, from the
entry on. -/
theorem exists_visits_of_describes (hs : s.Sound) {P : Project}
    (hP : P.Describes options fun s' ↦ s'.Sound ∧ s.SameTree s') {depth : Nat} {entry : Path}
    {s' : MemoryStore} {g : Graph} (h : collect options depth entry s = some (.ok g, s')) :
    ∃ start, s.Opens entry start ∧ P.Visits start {} 0 g := by
  obtain ⟨e, -, hentry⟩ | ⟨start, hopens, hentry⟩ := hs.entryPath_cases entry
  · simp [collect, hentry] at h
  · obtain ⟨path, hpath, hvisits⟩ := collect_eq_ok hP (hs.entryPath entry) h
    obtain rfl : start = path := by simpa [hentry] using hpath
    exact ⟨start, hopens, hvisits⟩

/-- A bundle that is collected is a walk through the project, from the entry on. -/
theorem exists_visits_of_collect (hs : s.Sound) (htree : options.ReadsTree) {depth : Nat}
    {entry : Path} {s' : MemoryStore} {g : Graph}
    (h : collect options depth entry s = some (.ok g, s')) :
    ∃ start, s.Opens entry start ∧ (options.project s).Visits start {} 0 g :=
  exists_visits_of_describes hs (describes_project hs htree) h

/-- Collecting a bundle fails with an error: the entry does not open, or the walk from it stops. -/
def FailsWith (options : BundleOptions MemoryStore) (s : MemoryStore) (entry : Path) (e : Error) :
    Prop :=
  FileStore.openFile entry s = .error e ∨
    ∃ start, s.Opens entry start ∧ (options.project s).Stops ⟨[], [.visit start]⟩ e

theorem failsWith_of_collect (hs : s.Sound) (htree : options.ReadsTree) {depth : Nat} {entry : Path}
    {s' : MemoryStore} {e : Error} (h : collect options depth entry s = some (.error e, s')) :
    options.FailsWith s entry e := by
  obtain ⟨e', hopen, hentry⟩ | ⟨start, hopens, hentry⟩ := hs.entryPath_cases entry
  · obtain rfl : e' = e := by simpa [collect, hentry] using congrArg (Option.map Prod.fst) h
    exact Or.inl hopen
  · obtain ⟨path, hpath, hstops⟩ := (collect_eq_error (describes_project hs htree)
      (hs.entryPath entry) h).resolve_left (by simp [hentry])
    obtain rfl : start = path := by simpa [hentry] using hpath
    exact Or.inr ⟨start, hopens, hstops⟩

end BundleOptions

end ModuleBundler
