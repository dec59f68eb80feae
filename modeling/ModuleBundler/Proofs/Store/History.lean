import ModuleBundler.Proofs.Store.Operations

/-!
# The history of a run

The store that operations leave does not say what they answered on the way, and much of what is
promised of open files is about just this: that no handle is given out twice, or that a file has the
content that was stored in it last. The history of a run says it, with one entry for each operation
of a kind that succeeded, in the order of the run. There are four kinds: handles were given out
(`Operation.issued?`) or taken back (`Operation.returned?`), files were removed
(`Operation.removed?`), and contents were stored (`Operation.stored?`).

Files are named by their canonical paths. An operation may have been given another path, or only a
handle, and so the store is asked for the canonical one.

The handles that `FileStore.load` and `FileStore.save` work with are given out and taken back before
anyone sees them. They are not in the history.
-/

namespace ModuleBundler

namespace Operation

variable {σ α : Type} [FileStore σ]

/-! ### What an operation did -/

/-- The handle that an operation gives out. -/
def issued? (operation : Operation) (s : σ) : Option Handle :=
  match operation with
  | .openFile path =>
    match FileStore.openFile path s with
    | .ok (handle, _) => some handle
    | .error _ => none
  | _ => none

/-- The handle that an operation takes back. -/
def returned? (operation : Operation) (s : σ) : Option Handle :=
  match operation with
  | .close handle =>
    match FileStore.close handle s with
    | .ok _ => some handle
    | .error _ => none
  | _ => none

/-- The canonical path of the file that an operation removes. -/
def removed? (operation : Operation) (s : σ) : Option Path :=
  match operation with
  | .remove path =>
    match FileStore.remove path s with
    | .ok _ => (FileStore.resolve Path.root path s).toOption
    | .error _ => none
  | _ => none

/-- What was stored at `path`, by the store that this led to if it did. -/
def storedAt? (path : Path) (bytes : Bytes) : Except Error Unit × σ → Option (Path × Bytes)
  | (.ok _, s) => (FileStore.resolve Path.root path s).toOption.map (·, bytes)
  | (.error _, _) => none

/-- The canonical path of the file whose content an operation replaces, and the content that is
stored there. To make a file is to store nothing in it. -/
def stored? (operation : Operation) (s : σ) : Option (Path × Bytes) :=
  match operation with
  | .create path => storedAt? path [] (FileStore.change (FileStore.create path) s)
  | .save path bytes => storedAt? path bytes (FileStore.save path bytes s)
  | .write handle bytes =>
    match FileStore.write handle bytes s with
    | .ok _ => (FileStore.realPath handle s).toOption.map (·, bytes)
    | .error _ => none
  | _ => none

/-! ### What a run did -/

/-- What is to be told of each operation of a run, where there is something to tell. -/
def history (tell? : Operation → σ → Option α) : List Operation → σ → List α
  | [], _ => []
  | operation :: rest, s => (tell? operation s).toList ++ history tell? rest (operation.apply s)

/-- The content that a run stored last in the file at a path. -/
def lastStored? (path : Path) (operations : List Operation) (s : σ) : Option Bytes :=
  (history stored? operations s).reverse.lookup path

variable {tell? : Operation → σ → Option α} {front rest operations : List Operation}
  {operation : Operation} {s : σ} {a : α} {path : Path}

theorem apply_openFile {handle : Handle} {opened : σ}
    (h : FileStore.openFile path s = .ok (handle, opened)) :
    (openFile path).apply s = opened := by
  rw [apply, FileStore.attempt, h]

theorem run_append : run (front ++ rest) s = run rest (run front s) :=
  List.foldl_append

theorem history_append : history tell? (front ++ rest) s =
    history tell? front s ++ history tell? rest (run front s) := by
  induction front generalizing s with
  | nil => rfl
  | cons operation front ih =>
    show (tell? operation s).toList ++ history tell? (front ++ rest) (operation.apply s) = _
    rw [ih, ← List.append_assoc]
    rfl

theorem mem_history_cons : a ∈ history tell? (operation :: rest) s ↔
    tell? operation s = some a ∨ a ∈ history tell? rest (operation.apply s) := by
  rw [history, List.mem_append, Option.mem_toList]

theorem lastStored?_concat : lastStored? path (operations ++ [operation]) s =
    match operation.stored? (run operations s) with
    | some (stored, bytes) =>
      if path = stored then some bytes else lastStored? path operations s
    | none => lastStored? path operations s := by
  have hone : history stored? [operation] (run operations s) =
      (operation.stored? (run operations s)).toList :=
    List.append_nil _
  rw [lastStored?, history_append, hone, List.reverse_append]
  rcases operation.stored? (run operations s) with - | ⟨stored, bytes⟩
  · rfl
  · show List.lookup path ((stored, bytes) :: (history stored? operations s).reverse) = _
    rw [List.lookup_cons]
    by_cases heq : path = stored
    · simp [heq]
    · rw [beq_eq_false_iff_ne.2 heq]
      exact (if_neg heq).symm

end Operation

namespace FileStore

variable {σ : Type} [FileStore σ]

/-- A store refuses a handle: whatever it is used for fails, and not because of a path. -/
structure Refuses (handle : Handle) (s : σ) : Prop where
  /-- There is nothing to read. -/
  read : ∃ cause, read handle s = .error (.io cause)
  /-- Nothing can be written. -/
  write : ∀ bytes, ∃ cause, write handle bytes s = .error (.io cause)
  /-- It cannot be closed. -/
  close : ∃ cause, close handle s = .error (.io cause)
  /-- It has no path. -/
  realPath : ∃ cause, realPath handle s = .error (.io cause)
  /-- It has no written path either. -/
  displayPath : ∃ cause, displayPath handle s = .error (.io cause)

end FileStore

end ModuleBundler
