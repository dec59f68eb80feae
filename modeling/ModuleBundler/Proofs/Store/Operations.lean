import ModuleBundler.Store.FileStore

/-!
# Runs of operations on a store

`Operation` lists what a caller can ask of a store that may leave it another store; questions such
as `FileStore.resolve` or `FileStore.read` leave it as it is. An operation always leads to a store,
also when it fails: `Operation.apply` says to which.

Three of the operations are built from the others and may fail in the middle of their work. So that
no invariant has to be carried through them again, `FileStore.Keeps` asks for the six basic
operations only, and `FileStore.Keeps.of_reachable` gives back the invariant for every store that a
run of operations reaches, whatever succeeds or fails on the way.

Some invariants depend on the names that operations bring into a store. `FileStore.ReachableOn`
therefore says which paths a run may be about, and `FileStore.Keeps` is asked for no others.
-/

namespace ModuleBundler

/-- What can be asked of a store and may change it. -/
inductive Operation where
  /-- To open a file. -/
  | openFile (path : Path)
  /-- To make or empty a file. -/
  | create (path : Path)
  /-- To remove a file. -/
  | remove (path : Path)
  /-- To make a directory. -/
  | makeDirectory (path : Path)
  /-- To replace the content of an open file. -/
  | write (handle : Handle) (bytes : Bytes)
  /-- To close an open file. -/
  | close (handle : Handle)
  /-- To read a file. -/
  | load (path : Path)
  /-- To make or replace a file. -/
  | save (path : Path) (bytes : Bytes)
  /-- To make a directory and those missing above it. -/
  | makeDirectories (path : Path)
  deriving DecidableEq, Repr

/-- The path that an operation is about; none if it is about a handle. -/
def Operation.path? : Operation → Option Path
  | .openFile path => some path
  | .create path => some path
  | .remove path => some path
  | .makeDirectory path => some path
  | .write _ _ => none
  | .close _ => none
  | .load path => some path
  | .save path _ => some path
  | .makeDirectories path => some path

/-- The store that an operation leaves, whether it succeeds or fails. -/
def Operation.apply {σ : Type} [FileStore σ] (operation : Operation) (s : σ) : σ :=
  match operation with
  | .openFile path => (FileStore.attempt (FileStore.openFile path) s).2
  | .create path => (FileStore.change (FileStore.create path) s).2
  | .remove path => (FileStore.change (FileStore.remove path) s).2
  | .makeDirectory path => (FileStore.change (FileStore.makeDirectory path) s).2
  | .write handle bytes => (FileStore.change (FileStore.write handle bytes) s).2
  | .close handle => (FileStore.change (FileStore.close handle) s).2
  | .load path => (FileStore.load path s).2
  | .save path bytes => (FileStore.save path bytes s).2
  | .makeDirectories path => (FileStore.makeDirectories path s).2

/-- The store that operations leave, one after the other. -/
def Operation.run {σ : Type} [FileStore σ] (operations : List Operation) (s : σ) : σ :=
  operations.foldl (fun s operation ↦ operation.apply s) s

namespace FileStore

variable {σ : Type} [FileStore σ]

/-- The stores that operations lead to from a store. -/
inductive Reachable (start : σ) : σ → Prop
  /-- No operation at all. -/
  | start : Reachable start start
  /-- One operation more. -/
  | step {s : σ} (operation : Operation) : Reachable start s → Reachable start (operation.apply s)

theorem Reachable.run {start s : σ} (h : Reachable start s) (operations : List Operation) :
    Reachable start (Operation.run operations s) := by
  induction operations generalizing s with
  | nil => exact h
  | cons operation rest ih => exact ih (h.step operation)

/-- The stores that operations about `good` paths lead to from a store. -/
inductive ReachableOn (good : Path → Prop) (start : σ) : σ → Prop
  /-- No operation at all. -/
  | start : ReachableOn good start start
  /-- One operation more. -/
  | step {s : σ} (operation : Operation) : (∀ path ∈ operation.path?, good path) →
      ReachableOn good start s → ReachableOn good start (operation.apply s)

section

variable {good : Path → Prop} {start s : σ}

theorem ReachableOn.reachable (h : ReachableOn good start s) : Reachable start s := by
  induction h with
  | start => exact .start
  | step operation _ _ ih => exact ih.step operation

theorem Reachable.reachableOn (h : Reachable start s) (hgood : ∀ path, good path) :
    ReachableOn good start s := by
  induction h with
  | start => exact .start
  | step operation _ ih => exact ih.step operation fun path _ ↦ hgood path

theorem ReachableOn.run (h : ReachableOn good start s) {operations : List Operation}
    (hgood : ∀ operation ∈ operations, ∀ path ∈ operation.path?, good path) :
    ReachableOn good start (Operation.run operations s) := by
  induction operations generalizing s with
  | nil => exact h
  | cons operation rest ih =>
    exact ih (h.step operation (hgood operation List.mem_cons_self)) fun next hnext ↦
      hgood next (List.mem_cons_of_mem _ hnext)

end

/-- An invariant that the basic operations about `good` paths keep when they succeed. The paths that
directories are made along have to be good if the one that was asked for is. -/
structure Keeps (σ : Type) [FileStore σ] (good : Path → Prop) (I : σ → Prop) : Prop where
  root : good Path.root
  child : ∀ {path : Path} {segment : String}, good path → good (path.child segment)
  openFile : ∀ {path s handle s'}, I s → openFile path s = .ok (handle, s') → I s'
  create : ∀ {path s s'}, good path → I s → create path s = .ok s' → I s'
  remove : ∀ {path s s'}, good path → I s → remove path s = .ok s' → I s'
  makeDirectory : ∀ {path s s'}, good path → I s → makeDirectory path s = .ok s' → I s'
  write : ∀ {handle bytes s s'}, I s → write handle bytes s = .ok s' → I s'
  close : ∀ {handle s s'}, I s → close handle s = .ok s' → I s'

/-- A change that fails keeps every invariant. -/
theorem snd_change {σ : Type} {I : σ → Prop} {operation : σ → Except Error σ} {s : σ}
    (h : ∀ {s'}, operation s = .ok s' → I s') (hs : I s) : I (change operation s).2 := by
  rcases hop : operation s with e | s'
  · simpa [change, hop] using hs
  · simpa [change, hop] using h hop

namespace Keeps

variable {good : Path → Prop} {I : σ → Prop} {s : σ}

theorem load (h : Keeps σ good I) (hs : I s) (path : Path) : I (FileStore.load path s).2 := by
  rw [FileStore.load]
  rcases hopen : FileStore.openFile path s with e | ⟨handle, opened⟩
  · exact hs
  · have hopened : I opened := h.openFile hs hopen
    rcases hclose : FileStore.close handle opened with e | closed
    · simpa [hclose] using hopened
    · simpa [hclose] using h.close hopened hclose

theorem save (h : Keeps σ good I) {path : Path} (hpath : good path) (hs : I s) (bytes : Bytes) :
    I (FileStore.save path bytes s).2 := by
  rw [FileStore.save]
  rcases hcreate : FileStore.create path s with e | created
  · exact hs
  · have hcreated : I created := h.create hpath hs hcreate
    rcases hopen : FileStore.openFile path created with e | ⟨handle, opened⟩
    · simpa [hopen] using hcreated
    · have hopened : I opened := h.openFile hcreated hopen
      have hwritten : I (change (FileStore.write handle bytes) opened).2 :=
        snd_change (h.write hopened) hopened
      rcases hclose : FileStore.close handle (change (FileStore.write handle bytes) opened).2
        with e | closed
      · simpa [hopen, hclose] using hwritten
      · simpa [hopen, hclose] using h.close hwritten hclose

theorem descend (h : Keeps σ good I) {above : Path} (habove : good above) (hs : I s)
    (segments : List String) : I (FileStore.descend above segments s).2 := by
  induction segments generalizing above s with
  | nil => exact hs
  | cons segment rest ih =>
    rw [FileStore.descend]
    have hnext : good (above.child segment) := h.child habove
    split
    · exact ih hnext hs
    · split
      · exact ih hnext (h.makeDirectory hnext hs ‹_›)
      · exact hs

theorem makeDirectories (h : Keeps σ good I) (hs : I s) (path : Path) :
    I (FileStore.makeDirectories path s).2 := by
  rw [FileStore.makeDirectories]
  split
  · exact h.descend h.root hs _
  · exact hs

/-- An operation keeps what the basic operations keep. -/
theorem apply (h : Keeps σ good I) (hs : I s) (operation : Operation)
    (hgood : ∀ path ∈ operation.path?, good path) : I (operation.apply s) := by
  cases operation with
  | openFile path =>
    rw [Operation.apply, attempt]
    split
    · exact h.openFile hs ‹_›
    · exact hs
  | create path => exact snd_change (h.create (hgood path rfl) hs) hs
  | remove path => exact snd_change (h.remove (hgood path rfl) hs) hs
  | makeDirectory path => exact snd_change (h.makeDirectory (hgood path rfl) hs) hs
  | write handle bytes => exact snd_change (h.write hs) hs
  | close handle => exact snd_change (h.close hs) hs
  | load path => exact h.load hs path
  | save path bytes => exact h.save (hgood path rfl) hs bytes
  | makeDirectories path => exact h.makeDirectories hs path

/-- **A run of operations keeps what the basic operations keep.** -/
theorem of_reachable (h : Keeps σ good I) {start : σ} (hstart : I start)
    (hs : ReachableOn good start s) : I s := by
  induction hs with
  | start => exact hstart
  | step operation hgood _ ih => exact h.apply ih operation hgood

end Keeps

end FileStore

end ModuleBundler
