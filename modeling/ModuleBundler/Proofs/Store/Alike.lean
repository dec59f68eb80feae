import ModuleBundler.Proofs.Resolution.Probing

/-!
# Answers that are alike

Two stores that stand for the same files need not use the same words. What they have in common is
said by `Alike`: both succeed with the same, or both fail with errors that a relation takes for
alike. The relation that matters here is `Error.Alike`. It asks for the same error, except for an
invalid path: what is wrong with a path, one store says of a node and the other of a fault of the
system.

Answers that meet the same expectation are alike (`Meets.alike`), so that stores of two kinds are
compared by comparing each of them with the catalog. For stores in memory, what is missing for this
are the questions to which path something resolves, and under which path a file is opened.
-/

namespace ModuleBundler

/-- Two outcomes are the same success, or failures with errors that are related. -/
inductive Alike {α : Type} (E : Error → Error → Prop) : Except Error α → Except Error α → Prop
  /-- Both succeed, with the same. -/
  | ok (a : α) : Alike E (.ok a) (.ok a)
  /-- Both fail. -/
  | error {e e' : Error} : E e e' → Alike E (.error e) (.error e')

namespace Alike

variable {α : Type} {E : Error → Error → Prop} {outcome outcome' : Except Error α}

theorem refl (hE : ∀ e, E e e) (outcome : Except Error α) : Alike E outcome outcome := by
  rcases outcome with e | a
  · exact .error (hE e)
  · exact .ok a

/-- Outcomes with the same error are the same. -/
theorem eq (h : Alike Eq outcome outcome') : outcome = outcome' := by
  cases h with
  | ok => rfl
  | error h => rw [h]

/-- What alike outcomes succeed with is the same. -/
theorem toOption_eq (h : Alike E outcome outcome') : outcome.toOption = outcome'.toOption := by
  cases h <;> rfl

theorem map_toOption_eq {outcomes outcomes' : List (Except Error α)}
    (h : List.Forall₂ (Alike E) outcomes outcomes') :
    outcomes.map Except.toOption = outcomes'.map Except.toOption := by
  refine List.forall₂_eq_eq_eq ▸ ?_
  exact List.forall₂_map_left_iff.2 (List.forall₂_map_right_iff.2 (h.imp fun _ _ ↦ toOption_eq))

theorem map {β : Type} (h : Alike E outcome outcome') (f : α → β) :
    Alike E (outcome.map f) (outcome'.map f) := by
  cases h with
  | ok a => exact .ok (f a)
  | error h => exact .error h

end Alike

/-- The same error, up to what is said about a path. -/
def Error.Alike (e e' : Error) : Prop :=
  e = e' ∨ e.isInvalidPath = true ∧ e'.isInvalidPath = true

theorem Error.Alike.refl (e : Error) : e.Alike e :=
  Or.inl rfl

/-- Answers that meet the same expectation are alike. -/
theorem Meets.alike {α : Type} {answer answer' : Except Error α} {expected : Option α}
    (h : Meets answer expected) (h' : Meets answer' expected) :
    ModuleBundler.Alike Error.Alike answer answer' := by
  rcases expected with - | a
  · obtain ⟨cause, rfl⟩ := h
    obtain ⟨cause', rfl⟩ := h'
    exact .error (Or.inr ⟨rfl, rfl⟩)
  · obtain rfl : answer = .ok a := h
    obtain rfl : answer' = .ok a := h'
    exact .ok a

/-- The canonical path with which the file at a path is opened. -/
def FileStore.openedPath {σ : Type} [FileStore σ] (path : Path) (s : σ) : Except Error Path :=
  match openFile path s with
  | .error e => .error e
  | .ok (handle, opened) => realPath handle opened

namespace MemoryStore

variable {s : MemoryStore}

namespace Tree

/-- A path in memory resolves to what the directory and the path denote together. -/
theorem meets_resolve (h : s.Tree) (context relative : Path) :
    Meets (FileStore.resolve context relative s) (s.catalog.denoted? (context.join relative)) := by
  rcases hresolve : FileStore.resolve context relative s with e | q
  · obtain ⟨cause, rfl⟩ := resolve_eq_error hresolve
    have hnone : s.catalog.denoted? (context.join relative) = none := by
      refine Option.eq_none_iff_forall_ne_some.2 fun q hq ↦ ?_
      rw [resolve_eq_ok.2 (h.denoted?_eq_some.1 hq)] at hresolve
      cases hresolve
    rw [hnone]
    exact ⟨cause, rfl⟩
  · rw [h.denoted?_eq_some.2 (resolve_eq_ok.1 hresolve)]
    rfl

/-- A file in memory is opened under the path of what the path denotes. -/
theorem meets_openedPath (h : s.Tree) (hs : s.Sound) (path : Path) :
    Meets (FileStore.openedPath path s) ((s.catalog.denoted? path).filter s.catalog.hasFile) := by
  rcases hopen : FileStore.openFile path s with e | ⟨handle, opened⟩
  · have hcontent : s.contentAt path = .error e := openFile_eq_error.1 hopen
    have hnone : (s.catalog.denoted? path).filter s.catalog.hasFile = none := by
      refine Option.eq_none_iff_forall_ne_some.2 fun q hq ↦ ?_
      obtain ⟨hdenoted, hfile⟩ := Option.filter_eq_some_iff.1 hq
      obtain ⟨data, hdata⟩ := Catalog.hasFile_iff.1 hfile
      have hread : s.catalog.read path = some data := by
        rw [Catalog.read, hdenoted, Option.bind_some, hdata]
      rw [h.read_eq_some.1 hread] at hcontent
      cases hcontent
    obtain ⟨cause, rfl⟩ := contentAt_eq_error hcontent
    rw [FileStore.openedPath, hopen, hnone]
    exact ⟨cause, rfl⟩
  · obtain ⟨id, data, hid, hdata, -, hreal, -⟩ := hs.of_openFile hopen
    have hdenoted : s.catalog.denoted? path = some (s.pathOf id) :=
      h.denoted?_eq_some.2 ⟨id, hid, rfl⟩
    have hfile : s.catalog.hasFile (s.pathOf id) = true :=
      Catalog.hasFile_iff.2 ⟨data, h.catalog_eq_some.2 ⟨id, entryAt?_eq_file.2 hdata, rfl⟩⟩
    rw [FileStore.openedPath, hopen, Option.filter_eq_some_iff.2 ⟨hdenoted, hfile⟩]
    exact hreal

end Tree

end MemoryStore

end ModuleBundler
