import ModuleBundler.Proofs.Disk.Changes
import ModuleBundler.Proofs.Store.Slots

/-!
# Runs of calls on a disk and in memory

A disk without links and a store in memory with the same files are asked the same, call by call
(`Call.run`). What the calls come to on the disk is what they come to in memory, and the files stay
the same, with two exceptions that are made on a disk.

* A request is followed from the directory, also if it is an absolute path. In memory an absolute
  path is followed from the root.
* A question whether there is a file, and a change, pass over the steps up from the root. In memory
  a path with such steps is invalid. When a file is written, the store on the disk finds this out
  too, but only after it has made the file.

`Call.performAsDisk` makes these exceptions in memory. It is no exception that a file is opened or
read, or that directories are made along a path: here both stores refuse steps up from the root.

Calls that are not about exceptions (`Call.Regular`) come to the same in both stores.
-/

namespace ModuleBundler

/-- What a store is asked for by paths. -/
inductive Call where
  /-- What a path leads to, from a directory. -/
  | resolve (context relative : Path)
  /-- Whether there is a file. -/
  | isFile (path : Path)
  /-- To open a file, and the path it has. -/
  | openFile (path : Path)
  /-- To make or empty a file. -/
  | create (path : Path)
  /-- To remove a file. -/
  | remove (path : Path)
  /-- To make a directory. -/
  | makeDirectory (path : Path)
  /-- The content of a file. -/
  | load (path : Path)
  /-- To make or replace a file. -/
  | save (path : Path) (bytes : Bytes)
  /-- To make a directory and those missing above it. -/
  | makeDirectories (path : Path)
  deriving DecidableEq, Repr

/-- What a store replies if it does not fail. -/
inductive Reply where
  /-- What was asked for is at this path. -/
  | path (path : Path)
  /-- It is so, or it is not. -/
  | truth (holds : Bool)
  /-- A content. -/
  | content (bytes : Bytes)
  /-- It is done. -/
  | done
  deriving DecidableEq, Repr

namespace Call

section

variable {σ : Type} [FileStore σ]

/-- What a store replies to a call, and the store that the call leaves. -/
def perform (call : Call) (s : σ) : Except Error Reply × σ :=
  match call with
  | .resolve context relative => ((FileStore.resolve context relative s).map .path, s)
  | .isFile path => (.ok (.truth (FileStore.isFile path s)), s)
  | .openFile path =>
    ((FileStore.openedPath path s).map .path, (FileStore.attempt (FileStore.openFile path) s).2)
  | .create path => (FileStore.change (FileStore.create path) s).map (·.map fun _ ↦ .done) id
  | .remove path => (FileStore.change (FileStore.remove path) s).map (·.map fun _ ↦ .done) id
  | .makeDirectory path =>
    (FileStore.change (FileStore.makeDirectory path) s).map (·.map fun _ ↦ .done) id
  | .load path => (FileStore.load path s).map (·.map .content) id
  | .save path bytes => (FileStore.save path bytes s).map (·.map fun _ ↦ .done) id
  | .makeDirectories path => (FileStore.makeDirectories path s).map (·.map fun _ ↦ .done) id

end

/-- What a store in memory replies if it performs a call as a disk does, and the store that it
leaves. -/
def performAsDisk (call : Call) (s : MemoryStore) : Except Error Reply × MemoryStore :=
  match call with
  | .resolve context relative => (resolve context ⟨false, relative.segments⟩).perform s
  | .isFile path => (isFile path.grounded).perform s
  | .create path => (create path.grounded).perform s
  | .remove path => (remove path.grounded).perform s
  | .makeDirectory path => (makeDirectory path.grounded).perform s
  | .save path bytes =>
    if path.grounded = path then (save path bytes).perform s
    else (openFile path).perform ((create path.grounded).perform s).2
  | .openFile path => (openFile path).perform s
  | .load path => (load path).perform s
  | .makeDirectories path => (makeDirectories path).perform s

/-- The replies to calls that are performed in turn, and the store in the end. -/
def run {σ : Type} (perform : Call → σ → Except Error Reply × σ) :
    List Call → σ → List (Except Error Reply) × σ
  | [], s => ([], s)
  | call :: rest, s =>
    let (reply, next) := perform call s
    let (replies, last) := run perform rest next
    (reply :: replies, last)

/-- The path that the system is asked about. For a request, it leads along the directory first. -/
def path : Call → Path
  | .resolve context relative => ⟨context.absolute, context.segments ++ relative.segments⟩
  | .isFile path | .openFile path | .create path | .remove path | .makeDirectory path | .load path
  | .save path _ | .makeDirectories path => path

/-- The path of the call is absolute, and short enough for the system. -/
def Fits (call : Call) : Prop :=
  call.path.absolute = true ∧ call.path.WellFormed ∧ call.path.Fits

instance (call : Call) : Decidable call.Fits :=
  inferInstanceAs (Decidable (_ ∧ _ ∧ _))

/-- The path of the call is absolute, and the system takes it. Where the path is followed step by
step, no more is asked. Where the system is given the whole path, this has to be short enough. -/
def Taken (d : Disk) (call : Call) : Prop :=
  call.path.absolute = true ∧ call.path.WellFormed ∧
    match call with
    | .resolve _ _ | .openFile _ | .load _ => d.Takes call.path
    | _ => call.path.Fits

/-- The system takes the paths of the calls, each of them when its turn comes. -/
def AllTaken : List Call → DiskStore → Prop
  | [], _ => True
  | call :: rest, S => call.Taken S.disk ∧ AllTaken rest (call.perform S).2

/-- The call resolves no absolute path, and does not change or look for a file above the root. -/
def Regular : Call → Prop
  | .resolve _ relative => relative.absolute = false
  | .isFile path | .create path | .remove path | .makeDirectory path | .save path _ =>
    path.normalize.isOk = true
  | .openFile _ | .load _ | .makeDirectories _ => True

instance : DecidablePred Regular
  | .resolve _ relative => inferInstanceAs (Decidable (relative.absolute = false))
  | .isFile path | .create path | .remove path | .makeDirectory path | .save path _ =>
    inferInstanceAs (Decidable (path.normalize.isOk = true))
  | .openFile _ | .load _ | .makeDirectories _ => inferInstanceAs (Decidable True)

/-! ### One call -/

variable {S : DiskStore} {s : MemoryStore} {call : Call} {calls : List Call} {d : Disk}
  {m : Catalog} {path : Path}

theorem Fits.taken (hfits : call.Fits) (h : d.Mirrors m) (hm : m.IsTree) : call.Taken d := by
  obtain ⟨hpath, hplain, hfits⟩ := hfits
  have htakes := Disk.takes_of_fits h hm hpath hplain hfits
  refine ⟨hpath, hplain, ?_⟩
  cases call <;> first | exact htakes | exact hfits

/-- What is regular comes to the same. -/
theorem Regular.performAsDisk_eq (h : call.Regular) (hpath : call.path.absolute = true)
    (s : MemoryStore) : call.performAsDisk s = call.perform s := by
  have hground : ∀ {path : Path}, path.normalize.isOk = true → path.absolute = true →
      path.grounded = path := by
    intro path hok hpath
    rcases hnormalize : path.normalize with e | q
    · rw [hnormalize] at hok
      cases hok
    · exact Path.grounded_of_normalize hpath hnormalize
  cases call with
  | resolve context relative =>
    obtain ⟨absolute, segments⟩ := relative
    obtain rfl : absolute = false := h
    rfl
  | isFile path => rw [performAsDisk, hground h hpath]
  | create path => rw [performAsDisk, hground h hpath]
  | remove path => rw [performAsDisk, hground h hpath]
  | makeDirectory path => rw [performAsDisk, hground h hpath]
  | save path bytes => rw [performAsDisk, if_pos (hground h hpath)]
  | openFile path => rfl
  | load path => rfl
  | makeDirectories path => rfl

end Call

namespace DiskStore

variable {S : DiskStore} {s : MemoryStore} {m : Catalog} {call : Call} {calls : List Call}
  {path context relative : Path}

theorem Agree.map {α β : Type} {after : Except Error α × DiskStore}
    {after' : Except Error α × MemoryStore} (h : Agree after after') (f : α → β) :
    Agree (after.map (·.map f) id) (after'.map (·.map f) id) :=
  ⟨h.1.map f, h.2⟩

/-- A request is followed from the directory. -/
theorem agree_resolve (h : S.Shows s) (hcontext : context.absolute = true)
    (hplain : Path.WellFormed ⟨true, context.segments ++ relative.segments⟩)
    (htakes : S.disk.Takes ⟨true, context.segments ++ relative.segments⟩) :
    Agree ((Call.resolve context relative).perform S)
      ((Call.resolve context ⟨false, relative.segments⟩).perform s) := by
  have hdisk := resolve_meets h.disk h.tree.isTree_catalog hcontext hplain htakes
  have hmemory := h.tree.meets_resolve context ⟨false, relative.segments⟩
  have hjoin : context.join ⟨false, relative.segments⟩ =
      ⟨true, context.segments ++ relative.segments⟩ := by
    rw [Path.join, if_neg Bool.false_ne_true, hcontext]
  rw [hjoin] at hmemory
  exact ⟨(hdisk.alike hmemory).map Reply.path, h⟩

/-- A file is looked for without the steps up from the root. -/
theorem agree_isFile (h : S.Shows s) (hpath : path.absolute = true) (hplain : path.WellFormed)
    (hfits : path.Fits) :
    Agree ((Call.isFile path).perform S) ((Call.isFile path.grounded).perform s) := by
  have hsame : FileStore.isFile path S = FileStore.isFile path.grounded s := by
    rw [isFile_eq h.disk h.tree.isTree_catalog hpath hplain hfits, h.tree.isFile_eq]
  rw [Call.perform, Call.perform, hsame]
  exact ⟨.ok _, h⟩

/-- To open a file in memory changes nothing that is shown. -/
theorem Shows.openFile (h : S.Shows s) (hplain : path.WellFormed) :
    S.Shows ((Operation.openFile path).apply s) where
  disk := by
    rw [(MemoryStore.sameTree_openFile path).catalog]
    exact h.disk
  tree := MemoryStore.keeps_tree.apply h.tree (.openFile path) (by rintro _ ⟨⟩; exact hplain)
  sound := MemoryStore.keeps_sound.apply h.sound (.openFile path) fun _ _ ↦ trivial
  fresh := h.fresh

/-- To open a file on the disk changes nothing that is shown. -/
theorem Shows.openFile_disk (h : S.Shows s) : ((Operation.openFile path).apply S).Shows s := by
  rw [Operation.apply, FileStore.attempt]
  rcases hopen : FileStore.openFile path S with e | ⟨handle, opened⟩
  · exact h
  · obtain ⟨place, -, -, -, rfl⟩ := openFile_eq_ok.1 hopen
    exact ⟨h.disk, h.tree, h.sound, h.fresh.insert _⟩

/-- A file is opened under the same path, or there is none. -/
theorem agree_openFile (h : S.Shows s) (hpath : path.absolute = true) (hplain : path.WellFormed)
    (htakes : S.disk.Takes path) :
    Agree ((Call.openFile path).perform S) ((Call.openFile path).perform s) := by
  have hdisk := openedPath_meets h.disk h.tree.isTree_catalog h.fresh hpath hplain htakes
  have hmemory := h.tree.meets_openedPath h.sound path
  exact ⟨(hdisk.alike hmemory).map Reply.path, h.openFile_disk.openFile hplain⟩

/-- A path with steps up from the root is refused when a file is written, but the file is made. -/
theorem save_of_grounded_ne (h : S.disk.Mirrors m) (hm : m.IsTree) (hpath : path.absolute = true)
    (hplain : path.WellFormed) (hfits : path.Fits) (hground : path.grounded ≠ path)
    (bytes : Bytes) : ∃ cause, FileStore.save path bytes S =
      (.error (.invalidPath cause), (FileStore.change (FileStore.create path) S).2) := by
  have hchanges := create_changes h hm hpath hplain hfits
  rw [FileStore.save, FileStore.change]
  rcases hput : m.put path.grounded [] with - | made
  · -- no file is made, and the answer to this is the answer to all
    rw [hput] at hchanges
    obtain ⟨cause, hcause⟩ := hchanges
    have hcreate : FileStore.create path S = .error (.invalidPath cause) := hcause
    exact ⟨cause, by rw [hcreate]⟩
  · -- a file is made; to open it the store reads the path, and refuses it
    rw [hput] at hchanges
    obtain ⟨d, hd, -⟩ := hchanges
    have hcreate : FileStore.create path S = .ok { S with disk := d } := hd
    obtain ⟨e, hnormalize⟩ : ∃ e, path.normalize = .error e := by
      rcases hnormalize : path.normalize with e | q
      · exact ⟨e, rfl⟩
      · exact absurd (Path.grounded_of_normalize hpath hnormalize) hground
    obtain ⟨cause, rfl⟩ := Path.normalize_eq_error hnormalize
    have hopen : FileStore.openFile path { S with disk := d } = .error (.invalidPath cause) := by
      refine openFile_eq_error.2 (Or.inl ?_)
      rw [place, if_pos hpath, hnormalize]
      rfl
    exact ⟨cause, by rw [hcreate]; simp only [hopen]⟩

/-- A file that is written at a path with steps up from the root is made, and not written. -/
theorem agree_save_of_grounded_ne (h : S.Shows s) (hpath : path.absolute = true)
    (hplain : path.WellFormed) (hfits : path.Fits) (hground : path.grounded ≠ path)
    (bytes : Bytes) :
    Agree ((Call.save path bytes).perform S)
      ((Call.openFile path).perform ((Call.create path.grounded).perform s).2) := by
  obtain ⟨cause, hsave⟩ := save_of_grounded_ne h.disk h.tree.isTree_catalog hpath hplain hfits
    hground bytes
  have hmade : Shows (FileStore.change (FileStore.create path) S).2
      ((Call.create path.grounded).perform s).2 := (agree_create h hpath hplain hfits).2
  have hnone : ((Call.create path.grounded).perform s).2.catalog.denoted? path = none := by
    refine Option.eq_none_iff_forall_ne_some.2 fun q hq ↦ hground ?_
    exact Catalog.grounded_of_denoted? hpath hq
  have hmemory := hmade.tree.meets_openedPath hmade.sound path
  rw [hnone] at hmemory
  have hdisk : Meets (.error (.invalidPath cause)) (none : Option Path) := ⟨cause, rfl⟩
  have hperform : (Call.save path bytes).perform S =
      (.error (.invalidPath cause), (FileStore.change (FileStore.create path) S).2) := by
    rw [Call.perform, hsave]
    rfl
  rw [hperform]
  exact ⟨(hdisk.alike hmemory).map Reply.path, hmade.openFile hplain⟩

/-- **A call on a disk comes to what it comes to in memory**, if it is performed there as on a
disk. -/
theorem agree_perform (h : S.Shows s) (htaken : call.Taken S.disk) :
    Agree (call.perform S) (call.performAsDisk s) := by
  obtain ⟨hpath, hplain, htaken⟩ := htaken
  cases call with
  | resolve context relative =>
    obtain ⟨absolute, segments⟩ := context
    obtain rfl : absolute = true := hpath
    exact agree_resolve h rfl hplain htaken
  | isFile path => exact agree_isFile h hpath hplain htaken
  | openFile path => exact agree_openFile h hpath hplain htaken
  | create path => exact (agree_create h hpath hplain htaken).map _
  | remove path => exact (agree_remove h hpath hplain htaken).map _
  | makeDirectory path => exact (agree_makeDirectory h hpath hplain htaken).map _
  | load path => exact (agree_load h hpath hplain htaken).map _
  | save path bytes =>
    rw [Call.performAsDisk]
    split
    case isTrue hground => exact (agree_save h hpath hplain htaken hground bytes).map _
    case isFalse hground => exact agree_save_of_grounded_ne h hpath hplain htaken hground bytes
  | makeDirectories path => exact (agree_makeDirectories h hpath hplain htaken).map _

/-- The system takes whatever is short enough for it, at any time. -/
theorem allTaken_of_fits (h : S.Shows s) (hfits : ∀ call ∈ calls, call.Fits) :
    Call.AllTaken calls S := by
  induction calls generalizing S s with
  | nil => trivial
  | cons call rest ih =>
    have htaken := (hfits call List.mem_cons_self).taken h.disk h.tree.isTree_catalog
    exact ⟨htaken, ih (agree_perform h htaken).2 fun next hnext ↦
      hfits next (List.mem_cons_of_mem _ hnext)⟩

/-- **A run on a disk comes to what it comes to in memory**, if it is performed there as on a
disk. -/
theorem agree_run (h : S.Shows s) (htaken : Call.AllTaken calls S) :
    List.Forall₂ (Alike Error.Alike) (Call.run Call.perform calls S).1
        (Call.run Call.performAsDisk calls s).1 ∧
      (Call.run Call.perform calls S).2.Shows (Call.run Call.performAsDisk calls s).2 := by
  induction calls generalizing S s with
  | nil => exact ⟨.nil, h⟩
  | cons call rest ih =>
    obtain ⟨hcall, hrest⟩ := htaken
    have hagree := agree_perform h hcall
    obtain ⟨hreplies, hshows⟩ := ih hagree.2 hrest
    exact ⟨.cons hagree.1 hreplies, hshows⟩

end DiskStore

namespace Call

variable {S : DiskStore} {s : MemoryStore} {calls : List Call}

/-- The paths of calls that are taken are absolute. -/
theorem AllTaken.absolute (h : AllTaken calls S) :
    ∀ call ∈ calls, call.path.absolute = true := by
  induction calls generalizing S with
  | nil => exact nofun
  | cons call rest ih =>
    obtain ⟨hcall, hrest⟩ := h
    exact List.forall_mem_cons.2 ⟨hcall.1, ih hrest⟩

/-- Regular calls come to the same. -/
theorem run_performAsDisk_eq (hregular : ∀ call ∈ calls, call.Regular)
    (hpath : ∀ call ∈ calls, call.path.absolute = true) (s : MemoryStore) :
    run performAsDisk calls s = run perform calls s := by
  induction calls generalizing s with
  | nil => rfl
  | cons call rest ih =>
    obtain ⟨hcall, hrest⟩ := List.forall_mem_cons.1 hregular
    obtain ⟨hcall', hrest'⟩ := List.forall_mem_cons.1 hpath
    simp only [run, hcall.performAsDisk_eq hcall', ih hrest hrest']

/-- **A run on a disk and a run in memory come to the same, but for two exceptions.** The replies on
the disk are those of the store in memory where this performs the calls as a disk does: at each call
both stores reply the same, or fail with the same error, or both say that a path is invalid. In the
end the disk has what the store in memory has. And what is regular is performed in memory as it is
on a disk. -/
theorem run_onDisk (calls : List Call) (S : DiskStore) (s : MemoryStore) (hs : s.InUse)
    (h : S.disk.Mirrors s.catalog) (hfresh : S.handles.Fresh) (htaken : AllTaken calls S) :
    List.Forall₂ (Alike Error.Alike) (run perform calls S).1 (run performAsDisk calls s).1 ∧
    (run perform calls S).2.disk.Mirrors (run performAsDisk calls s).2.catalog ∧
    ((∀ call ∈ calls, call.Regular) → run performAsDisk calls s = run perform calls s) := by
  obtain ⟨hreplies, hshows⟩ := DiskStore.agree_run ⟨h, hs.tree, hs.sound, hfresh⟩ htaken
  exact ⟨hreplies, hshows.disk, fun hregular ↦
    run_performAsDisk_eq hregular htaken.absolute s⟩

/-- Calls of all kinds that are regular; one fails because there is no directory. -/
def togetherCalls : List Call :=
  [.makeDirectories ⟨true, ["lib", "src"]⟩, .save ⟨true, ["lib", "a.ts"]⟩ [120],
    .resolve ⟨true, ["lib", "src"]⟩ ⟨false, ["..", "a.ts"]⟩,
    .openFile ⟨true, ["lib", "src", "..", "a.ts"]⟩, .load ⟨true, ["lib", "a.ts"]⟩,
    .create ⟨true, ["none", "b.ts"]⟩, .remove ⟨true, ["lib", "src", "..", "a.ts"]⟩,
    .isFile ⟨true, ["lib", "a.ts"]⟩, .makeDirectory ⟨true, ["lib", "a.ts"]⟩]

/-- Nine calls on an empty store and on an empty disk are answered alike. -/
theorem run_onDisk_togetherCalls :
    MemoryStore.empty.InUse ∧ DiskStore.blank.disk.Mirrors MemoryStore.empty.catalog ∧
    DiskStore.blank.handles.Fresh ∧ AllTaken togetherCalls .blank ∧
    (∀ call ∈ togetherCalls, call.Regular) ∧
    List.Forall₂ (Alike Error.Alike) (run perform togetherCalls DiskStore.blank).1
      (run perform togetherCalls MemoryStore.empty).1 ∧
    (run perform togetherCalls DiskStore.blank).2.disk.Mirrors
      (run perform togetherCalls MemoryStore.empty).2.catalog ∧
    (run perform togetherCalls DiskStore.blank).1.map Except.toOption =
      [some .done, some .done, some (.path ⟨true, ["lib", "a.ts"]⟩),
        some (.path ⟨true, ["lib", "a.ts"]⟩), some (.content [120]), none, some .done,
        some (.truth false), some .done] := by
  have h := DiskStore.shows_blank
  have hs : MemoryStore.empty.InUse := .start
  have htaken : AllTaken togetherCalls .blank :=
    DiskStore.allTaken_of_fits h (by decide +kernel)
  have hregular : ∀ call ∈ togetherCalls, call.Regular := by decide +kernel
  obtain ⟨hreplies, hmirrors, hsame⟩ :=
    run_onDisk togetherCalls .blank .empty hs h.disk h.fresh htaken
  rw [hsame hregular] at hreplies hmirrors
  refine ⟨hs, h.disk, h.fresh, htaken, hregular, hreplies, hmirrors, ?_⟩
  rw [Alike.map_toOption_eq hreplies]
  decide +kernel

/-- Calls that are not regular: a request with an absolute path, and paths with a step up from the
root. -/
def apartCalls : List Call :=
  [.makeDirectory ⟨true, ["a"]⟩, .resolve ⟨true, ["a"]⟩ .root, .save ⟨true, ["b"]⟩ [],
    .isFile ⟨true, ["..", "b"]⟩, .create ⟨true, ["..", "c"]⟩, .isFile ⟨true, ["c"]⟩]

/-- On a disk the request for the root leads to the directory, and the steps up from the root are
passed over. In memory neither is so. In the end one file is on the disk only. -/
theorem not_alike_apartCalls :
    MemoryStore.empty.InUse ∧ DiskStore.blank.disk.Mirrors MemoryStore.empty.catalog ∧
    DiskStore.blank.handles.Fresh ∧ AllTaken apartCalls .blank ∧
    (run perform apartCalls DiskStore.blank).1.map Except.toOption =
      [some .done, some (.path ⟨true, ["a"]⟩), some .done, some (.truth true), some .done,
        some (.truth true)] ∧
    (run perform apartCalls MemoryStore.empty).1.map Except.toOption =
      [some .done, some (.path .root), some .done, some (.truth false), none,
        some (.truth false)] ∧
    ¬ List.Forall₂ (Alike Error.Alike) (run perform apartCalls DiskStore.blank).1
      (run perform apartCalls MemoryStore.empty).1 := by
  have h := DiskStore.shows_blank
  have htaken : AllTaken apartCalls .blank := DiskStore.allTaken_of_fits h (by decide +kernel)
  have hdisk : (run perform apartCalls DiskStore.blank).1.map Except.toOption =
      [some .done, some (.path ⟨true, ["a"]⟩), some .done, some (.truth true), some .done,
        some (.truth true)] := by
    rw [Alike.map_toOption_eq (DiskStore.agree_run h htaken).1]
    decide +kernel
  have hmemory : (run perform apartCalls MemoryStore.empty).1.map Except.toOption =
      [some .done, some (.path .root), some .done, some (.truth false), none,
        some (.truth false)] := by
    decide +kernel
  refine ⟨.start, h.disk, h.fresh, htaken, hdisk, hmemory, fun halike ↦ ?_⟩
  have hsame := Alike.map_toOption_eq halike
  rw [hdisk, hmemory] at hsame
  cases hsame

end Call

end ModuleBundler
