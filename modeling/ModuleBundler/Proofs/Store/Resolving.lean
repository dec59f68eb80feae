import ModuleBundler.Proofs.Path.Lexical
import ModuleBundler.Proofs.Store.Refinement

/-!
# Resolving a path is reading it

A store in memory resolves a path by walking: from node to node, up by the parent of a directory and
down by the name of an entry. The path itself can be read without a store, by removing each name
that a step up follows. The two agree wherever the walk can be made
(`MemoryStore.Tree.denoted?_iff`): what has to stand on the way are directories, at the places that
the fronts of the path read as (`Catalog.Passable`), and something has to stand at the end.

So what a path resolves to says how to get there, and a file opens by every path that reads as the
path of the file and has directories on the way, and by no other.
-/

namespace ModuleBundler

namespace Catalog

variable {m : Catalog} {front segments : List String} {segment : String} {p q : Path}

/-- The way along segments is open: before each of them, the segments so far read as the path of a
directory. -/
def Passable (m : Catalog) (segments : List String) : Prop :=
  ∀ front, front <+: segments → front ≠ segments →
    ∃ d, Path.normalize ⟨true, front⟩ = .ok d ∧ m d = some .directory

theorem passable_nil : m.Passable [] := fun _ hfront hne ↦
  absurd (List.prefix_nil.1 hfront) hne

theorem passable_concat : m.Passable (front ++ [segment]) ↔
    m.Passable front ∧ ∃ d, Path.normalize ⟨true, front⟩ = .ok d ∧ m d = some .directory := by
  constructor
  · intro h
    refine ⟨fun front' hfront' hne ↦ ?_, ?_⟩
    · refine h front' (hfront'.trans (List.prefix_append _ _)) fun heq ↦ ?_
      have hlength := hfront'.length_le
      rw [heq, List.length_append, List.length_singleton] at hlength
      omega
    · exact h front (List.prefix_append _ _) (by simp)
  · rintro ⟨hfront, hlast⟩ front' hprefix hne
    rcases List.prefix_concat_iff.1 hprefix with heq | hprefix
    · exact absurd heq hne
    · by_cases heq : front' = front
      · exact heq ▸ hlast
      · exact hfront front' hprefix heq

/-- A step goes where the segment leads, from a directory to something that exists. Only what is
above a directory need not be looked for. -/
theorem step_eq_some : m.step p segment = some q ↔
    m p = some .directory ∧ p.next? segment = some q ∧
      (segment = Path.parentName ∨ m q ≠ none) := by
  rw [step]
  split
  case isFalse hfile => simp [hfile]
  case isTrue hdirectory =>
    by_cases hname : segment = Path.parentName
    · simp [hdirectory, Path.next?, hname]
    · have hbelow : p.next? segment = some (p.below segment) := Path.next?_of_ne hname
      rw [if_neg hname, hbelow]
      split
      case isTrue hnone =>
        refine iff_of_false (Option.some_ne_none q).symm ?_
        rintro ⟨-, hq, h | h⟩
        · exact hname h
        · exact h (Option.some.inj hq ▸ hnone)
      case isFalse hsome =>
        refine ⟨fun hq ↦ ⟨hdirectory, hq, Or.inr (Option.some.inj hq ▸ hsome)⟩, fun h ↦ h.2.1⟩

end Catalog

namespace MemoryStore

variable {s : MemoryStore} {context relative path p q : Path} {segments : List String}
  {absolute : Bool} {id : Nat} {cause : PathFault} {e : Error}

/-! ### Walks and readings -/

namespace Tree

/-- What is above something that exists is a directory. -/
theorem catalog_dropLast (h : s.Tree) (hp : s.catalog p ≠ none) (hbelow : p.segments ≠ []) :
    s.catalog ⟨true, p.segments.dropLast⟩ = some .directory := by
  obtain ⟨e, he⟩ := Option.ne_none_iff_exists'.1 hp
  obtain ⟨id, hentry, rfl⟩ := h.catalog_eq_some.1 he
  obtain ⟨node, hnode, -⟩ := exists_node_of_entryAt? hentry
  have hne : id ≠ 0 := by
    rintro rfl
    rw [h.pathOf_zero] at hbelow
    exact hbelow rfl
  obtain ⟨parent, hparent, -⟩ := h.exists_parent (name?_eq hnode) hne
  have habove : (⟨true, (s.pathOf id).segments.dropLast⟩ : Path) = s.pathOf parent := by
    rw [h.pathOf_eq_below hparent (name?_eq hnode), Path.below, List.dropLast_concat]
    rfl
  obtain ⟨_, _, _, hup⟩ := holdsDirectory_iff.1 (h.holdsDirectory_of_parent? hparent)
  rw [habove]
  exact (h.catalog_pathOf_eq_directory hup).2 (h.holdsDirectory_of_parent? hparent)

theorem catalog_root (h : s.Tree) : s.catalog Path.root = some .directory := by
  obtain ⟨root, hroot⟩ := h.exists_root
  rw [← h.pathOf_zero]
  exact (h.catalog_pathOf_eq_directory hroot).2 h.root

/-- **A path denotes what it reads as**, if there are directories on the way and there is something
at the end. -/
theorem denoted?_iff (h : s.Tree) : s.catalog.denoted? path = some q ↔
    s.catalog.Passable path.segments ∧ Path.normalize ⟨true, path.segments⟩ = .ok q ∧
      s.catalog q ≠ none := by
  rw [Catalog.denoted?]
  generalize path.segments = segments
  induction segments using List.reverseRecOn generalizing q with
  | nil =>
    have hroot : Path.normalize ⟨true, []⟩ = .ok Path.root := rfl
    constructor
    · intro hq
      obtain rfl : Path.root = q := Option.some.inj hq
      exact ⟨Catalog.passable_nil, hroot, h.catalog_root ▸ Option.some_ne_none _⟩
    · rintro ⟨-, hq, -⟩
      exact congrArg some (Except.ok.inj (hroot.symm.trans hq))
  | append_singleton front segment ih =>
    have hfold : (front ++ [segment]).foldlM s.catalog.step Path.root = some q ↔
        ∃ d, front.foldlM s.catalog.step Path.root = some d ∧
          s.catalog.step d segment = some q := by
      simp [List.foldlM_append, Option.bind_eq_some_iff]
    rw [hfold, Catalog.passable_concat, Path.normalize_concat]
    simp only [ih, Catalog.step_eq_some]
    constructor
    · rintro ⟨d, ⟨hfront, hd, -⟩, hdirectory, hnext, hexists⟩
      refine ⟨⟨hfront, d, hd, hdirectory⟩, ⟨d, hd, hnext⟩, ?_⟩
      rcases hexists with hup | hexists
      · -- what is above a directory is there
        rw [Path.next?, if_pos hup] at hnext
        split at hnext
        · cases hnext
        · rw [← Option.some.inj hnext,
            h.catalog_dropLast (hdirectory ▸ Option.some_ne_none _) ‹_›]
          exact Option.some_ne_none _
      · exact hexists
    · rintro ⟨⟨hfront, d, hd, hdirectory⟩, ⟨d', hd', hnext⟩, hexists⟩
      obtain rfl : d = d' := Except.ok.inj (hd.symm.trans hd')
      exact ⟨d, ⟨hfront, hd, hdirectory ▸ Option.some_ne_none _⟩, hdirectory, hnext,
        Or.inr hexists⟩

end Tree

/-! ### Resolving -/

theorem walk_append {start : Nat} {front rest : List String} :
    s.walk start (front ++ rest) = s.walk start front >>= fun id ↦ s.walk id rest :=
  List.foldlM_append

/-- Resolving is finding the place to start from, and walking. -/
theorem resolve_eq : FileStore.resolve context relative s =
    (if relative.absolute then pure 0 else s.lookup context) >>= fun start ↦
      match s.walk start relative.segments with
      | .ok id => .ok (s.pathOf id)
      | .error cause => invalid (.alongFrom relative context cause) := by
  show s.resolve context relative = _
  rw [resolve]
  split <;> rfl

/-- What a path resolves to from a directory is what the two of them lead to together. -/
theorem resolve_eq_ok : FileStore.resolve context relative s = .ok q ↔
    ∃ id, s.lookup (context.join relative) = .ok id ∧ s.pathOf id = q := by
  have hjoin : ∀ id, s.lookup (context.join relative) = .ok id ↔
      ∃ start, (if relative.absolute then pure 0 else s.lookup context) = .ok start ∧
        s.walk start relative.segments = .ok id := by
    intro id
    rw [lookup_eq_ok, Path.join]
    split
    · simp [pure, Except.pure]
    · simp only [walk_append, bind_eq_ok, lookup_eq_ok]
  simp only [hjoin, resolve_eq, bind_eq_ok]
  constructor
  · rintro ⟨start, hstart, hq⟩
    split at hq
    · exact ⟨_, ⟨start, hstart, ‹_›⟩, Except.ok.inj hq⟩
    · cases hq
  · rintro ⟨id, ⟨start, hstart, hid⟩, rfl⟩
    exact ⟨start, hstart, by rw [hid]⟩

/-- What does not resolve is an invalid path. -/
theorem resolve_eq_error (h : FileStore.resolve context relative s = .error e) :
    ∃ cause, e = .invalidPath cause := by
  rw [resolve_eq] at h
  rcases bind_eq_error.1 h with h | ⟨start, -, h⟩
  · split at h
    · cases h
    · exact lookup_eq_error h
  · split at h
    · cases h
    · exact ⟨_, (Except.error.inj h).symm⟩

theorem segments_join_root (path : Path) : (Path.root.join path).segments = path.segments := by
  rw [Path.join]
  split <;> rfl

namespace Tree

/-- **What a path resolves to is what it reads as.** -/
theorem resolve_iff (h : s.Tree) : FileStore.resolve context relative s = .ok q ↔
    s.catalog.Passable (context.join relative).segments ∧
      Path.normalize ⟨true, (context.join relative).segments⟩ = .ok q ∧ s.catalog q ≠ none := by
  rw [resolve_eq_ok, ← h.denoted?_eq_some, h.denoted?_iff]

/-- The path of an entry resolves to itself. -/
theorem resolve_self (h : s.Tree) (hq : s.catalog q ≠ none) :
    FileStore.resolve Path.root q s = .ok q := by
  obtain ⟨e, he⟩ := Option.ne_none_iff_exists'.1 hq
  obtain ⟨id, hentry, rfl⟩ := h.catalog_eq_some.1 he
  obtain ⟨node, hnode, -⟩ := exists_node_of_entryAt? hentry
  exact resolve_root (h.lookup_pathOf hnode)

/-- What a path resolves to resolves to itself. -/
theorem resolve_root_of_resolve (h : s.Tree) (hq : FileStore.resolve context relative s = .ok q) :
    FileStore.resolve Path.root q s = .ok q :=
  h.resolve_self (h.resolve_iff.1 hq).2.2

/-- The file at a path is the one at the path that it resolves to. -/
theorem contentAt_iff (h : s.Tree) {data : Bytes} : s.contentAt path = .ok data ↔
    ∃ q, FileStore.resolve Path.root path s = .ok q ∧ s.catalog q = some (.file data) := by
  simp only [contentAt_eq_ok, resolve_eq_ok, lookup_eq_ok, segments_join_root]
  constructor
  · rintro ⟨id, hid, hdata⟩
    exact ⟨s.pathOf id, ⟨id, hid, rfl⟩, h.catalog_eq_some.2 ⟨id, entryAt?_eq_file.2 hdata, rfl⟩⟩
  · rintro ⟨q, ⟨id, hid, rfl⟩, hentry⟩
    obtain ⟨node, hnode⟩ := h.exists_node_of_lookup (lookup_eq_ok.2 hid)
    rw [h.catalog_pathOf hnode, ← entryAt?_eq hnode] at hentry
    exact ⟨id, hid, entryAt?_eq_file.1 hentry⟩

end Tree

/-- A file opens where a path leads to a file, and nowhere else. -/
theorem openFile_iff : (∃ handle opened, FileStore.openFile path s = .ok (handle, opened)) ↔
    ∃ data, s.contentAt path = .ok data := by
  have herror : ∀ {e}, FileStore.openFile path s = .error e ↔ s.contentAt path = .error e :=
    openFile_eq_error
  rcases hopen : FileStore.openFile path s with e | ⟨handle, opened⟩
  · simp [herror.1 hopen]
  · rcases hcontent : s.contentAt path with e | data
    · rw [herror.2 hcontent] at hopen
      cases hopen
    · simp

/-- The path of an open file is the one that the path it was opened by resolves to. -/
theorem Sound.realPath_of_openFile (h : s.Sound) {handle : Handle} {opened : MemoryStore}
    (hopen : FileStore.openFile path s = .ok (handle, opened)) :
    FileStore.realPath handle opened = FileStore.resolve Path.root path s := by
  obtain ⟨id, data, hid, -, -, hreal, -⟩ := h.of_openFile hopen
  rw [resolve_root hid]
  exact hreal

/-- **Resolving is reading a path.** From a directory, a path resolves if all fronts of the two of
them, but not the whole, read as paths of directories, and the whole reads as the path of something
that exists; this is then the answer. It leads nowhere up and resolves to itself. Any other path is
invalid. A file opens by the paths that resolve to its path, which is the one the handle keeps, and
these are the paths that are said to be files. -/
theorem InUse.resolve_iff_normalize (h : s.InUse) (context relative path : Path) :
    (∀ q, FileStore.resolve context relative s = .ok q ↔
      s.catalog.Passable (context.join relative).segments ∧
        Path.normalize ⟨true, (context.join relative).segments⟩ = .ok q ∧ s.catalog q ≠ none) ∧
    (∀ q, FileStore.resolve context relative s = .ok q →
      q.isCanonical = true ∧ FileStore.resolve Path.root q s = .ok q) ∧
    (∀ e, FileStore.resolve context relative s = .error e → ∃ cause, e = .invalidPath cause) ∧
    ((∃ handle opened, FileStore.openFile path s = .ok (handle, opened)) ↔
      ∃ q data, FileStore.resolve Path.root path s = .ok q ∧ s.catalog q = some (.file data)) ∧
    (∀ handle opened, FileStore.openFile path s = .ok (handle, opened) →
      FileStore.realPath handle opened = FileStore.resolve Path.root path s) ∧
    (FileStore.isFile path s = true ↔
      ∃ q data, FileStore.resolve Path.root path s = .ok q ∧ s.catalog q = some (.file data)) := by
  have htree := h.tree
  have hfile : (∃ data, s.contentAt path = .ok data) ↔
      ∃ q data, FileStore.resolve Path.root path s = .ok q ∧
        s.catalog q = some (.file data) := by
    simp only [htree.contentAt_iff]
    exact exists_comm
  refine ⟨fun q ↦ htree.resolve_iff, fun q hq ↦ ?_, fun e ↦ resolve_eq_error,
    openFile_iff.trans hfile, fun _ _ ↦ h.sound.realPath_of_openFile, isFile_eq_true.trans hfile⟩
  exact ⟨Path.isCanonical_of_normalize (htree.resolve_iff.1 hq).2.1,
    htree.resolve_root_of_resolve hq⟩

/-- A path that goes down, up and down again. -/
theorem resolve_iff_normalize_nestedStore : nestedStore.InUse ∧
    FileStore.resolve ⟨true, ["lib"]⟩ ⟨false, ["core", "..", "core", "b.ts"]⟩ nestedStore =
      .ok ⟨true, ["lib", "core", "b.ts"]⟩ ∧
    nestedStore.catalog.Passable ["lib", "core", "..", "core", "b.ts"] ∧
    nestedStore.catalog ⟨true, ["lib", "core", "b.ts"]⟩ ≠ none := by
  have hresolve : FileStore.resolve ⟨true, ["lib"]⟩ ⟨false, ["core", "..", "core", "b.ts"]⟩
      nestedStore = .ok ⟨true, ["lib", "core", "b.ts"]⟩ := by decide +kernel
  have hiff := (inUse_nestedStore.resolve_iff_normalize ⟨true, ["lib"]⟩
    ⟨false, ["core", "..", "core", "b.ts"]⟩ Path.root).1 ⟨true, ["lib", "core", "b.ts"]⟩
  exact ⟨inUse_nestedStore, hresolve, (hiff.1 hresolve).1, (hiff.1 hresolve).2.2⟩

end MemoryStore

end ModuleBundler
