import ModuleBundler.Proofs.Store.Handles

/-!
# Handles of other stores

Several stores may be in use at once, with operations given to one or another of them in any order
(`Operation.runEach`). What becomes of a store depends on the operations given to it and on no
others (`Operation.runEach_apply`), and an operation never reaches into a store it was not given to.

A handle, however, is a number, and says nothing of the store that gave it out. All stores count
alike. A store therefore refuses the handle of another one only if it has no open handle of that
number itself (`MemoryStore.refuses_foreign_iff`); otherwise it takes the handle for its own, and
reads, overwrites or closes its own file (`MemoryStore.not_refuses_twoStores`).
-/

namespace ModuleBundler

namespace Operation

variable {ι σ : Type} [DecidableEq ι] [FileStore σ] {stores : ι → σ} {i : ι}
  {front : List (ι × Operation)}

/-- The handle that an operation is about; none if it is about a path. -/
def handle? : Operation → Option Handle
  | .write handle _ => some handle
  | .close handle => some handle
  | _ => none

/-- The stores that operations leave, where each operation is given to one of them. -/
def runEach (operations : List (ι × Operation)) (stores : ι → σ) : ι → σ :=
  operations.foldl
    (fun stores call ↦ Function.update stores call.1 (call.2.apply (stores call.1))) stores

/-- The operations that are given to one of the stores. -/
def givenTo (i : ι) (operations : List (ι × Operation)) : List Operation :=
  (operations.filter (·.1 = i)).map Prod.snd

/-- **What becomes of a store** depends on the operations that are given to it. -/
theorem runEach_apply (operations : List (ι × Operation)) :
    runEach operations stores i = run (givenTo i operations) (stores i) := by
  induction operations generalizing stores with
  | nil => rfl
  | cons call rest ih =>
    obtain ⟨j, operation⟩ := call
    show runEach rest (Function.update stores j (operation.apply (stores j))) i = _
    rw [ih]
    rcases eq_or_ne j i with rfl | hne
    · rw [Function.update_self, givenTo, givenTo, List.filter_cons_of_pos (by simp)]
      rfl
    · rw [Function.update_of_ne hne.symm, givenTo, givenTo, List.filter_cons_of_neg (by simpa)]

theorem runEach_concat {operation : Operation} : runEach (front ++ [(i, operation)]) stores =
    Function.update (runEach front stores) i (operation.apply (runEach front stores i)) :=
  List.foldl_append

end Operation

namespace MemoryStore

open Operation (issued? returned? history runEach givenTo)

variable {ι : Type} [DecidableEq ι] {s : MemoryStore} {handle : Handle} {operation : Operation}

/-- A handle that is refused changes nothing. -/
theorem apply_of_refuses (h : FileStore.Refuses handle s)
    (hhandle : operation.handle? = some handle) : operation.apply s = s := by
  cases operation with
  | write other bytes =>
    obtain rfl : other = handle := Option.some.inj hhandle
    obtain ⟨cause, hcause⟩ := h.write bytes
    rw [Operation.apply, FileStore.change, hcause]
  | close other =>
    obtain rfl : other = handle := Option.some.inj hhandle
    obtain ⟨cause, hcause⟩ := h.close
    rw [Operation.apply, FileStore.change, hcause]
  | _ => cases hhandle

/-- **When a handle of another store is refused.** A store refuses a handle that it gave out itself
once it took it back. It refuses a handle that another store gave out unless it has one of the same
number, given out and not taken back. A handle that is refused changes no store, and one that is
not refused changes no store but the one it is given to. -/
theorem refuses_foreign_iff (operations : List (ι × Operation)) {here there : ι}
    (hne : here ≠ there)
    (hissued : handle ∈ history issued? (givenTo there operations) empty) :
    (FileStore.Refuses handle (runEach operations (fun _ ↦ empty) there) ↔
      handle ∈ history returned? (givenTo there operations) empty) ∧
    (FileStore.Refuses handle (runEach operations (fun _ ↦ empty) here) ↔
      (handle ∈ history issued? (givenTo here operations) empty →
        handle ∈ history returned? (givenTo here operations) empty)) ∧
    ∀ operation : Operation, operation.handle? = some handle →
      (FileStore.Refuses handle (runEach operations (fun _ ↦ empty) here) →
        runEach (operations ++ [(here, operation)]) (fun _ ↦ empty) =
          runEach operations (fun _ ↦ empty)) ∧
      runEach (operations ++ [(here, operation)]) (fun _ ↦ empty) there =
        runEach operations (fun _ ↦ empty) there := by
  refine ⟨?_, ?_, fun operation hhandle ↦ ⟨fun hrefuses ↦ ?_, ?_⟩⟩
  · rw [Operation.runEach_apply, refuses_run_iff]
    exact ⟨fun h ↦ h hissued, fun h _ ↦ h⟩
  · rw [Operation.runEach_apply, refuses_run_iff]
  · rw [Operation.runEach_concat, apply_of_refuses hrefuses hhandle, Function.update_eq_self]
  · rw [Operation.runEach_concat, Function.update_of_ne hne.symm]

/-- Two stores with a file in each, which is opened in one store after the other. -/
def twoStores : List (Bool × Operation) :=
  [(true, .save ⟨true, ["x"]⟩ [97]), (false, .save ⟨true, ["y"]⟩ [98]),
    (true, .openFile ⟨true, ["x"]⟩), (false, .openFile ⟨true, ["y"]⟩)]

/-- Before the second store opens its file, it refuses the handle of the first. -/
theorem refuses_foreign_twoStores : false ≠ true ∧
    (⟨1⟩ : Handle) ∈ history issued? (givenTo true (twoStores.take 3)) empty ∧
    ¬ FileStore.Refuses ⟨1⟩ (runEach (twoStores.take 3) (fun _ ↦ empty) true) ∧
    FileStore.Refuses ⟨1⟩ (runEach (twoStores.take 3) (fun _ ↦ empty) false) ∧
    runEach (twoStores.take 3 ++ [(false, .write ⟨1⟩ [122])]) (fun _ ↦ empty) =
      runEach (twoStores.take 3) (fun _ ↦ (empty : MemoryStore)) := by
  have hne : false ≠ true := by decide
  have hissued : (⟨1⟩ : Handle) ∈ history issued? (givenTo true (twoStores.take 3)) empty := by
    decide +kernel
  obtain ⟨hthere, hhere, hchange⟩ := refuses_foreign_iff (twoStores.take 3) hne hissued
  have hrefuses := hhere.2 (by decide +kernel)
  refine ⟨hne, hissued, fun h ↦ absurd (hthere.1 h) (by decide +kernel), hrefuses, ?_⟩
  exact (hchange (.write ⟨1⟩ [122]) rfl).1 hrefuses

/-- **Handles are not bound to the store that gave them out.** Once it opened its file, the second
store takes the handle of the first for its own: it answers with the path of its own file, replaces
the content of this file, and closes it. -/
theorem not_refuses_twoStores :
    (⟨1⟩ : Handle) ∈ history issued? (givenTo true twoStores) empty ∧
    ¬ FileStore.Refuses ⟨1⟩ (runEach twoStores (fun _ ↦ empty) false) ∧
    FileStore.realPath ⟨1⟩ (runEach twoStores (fun _ ↦ empty) false) = .ok ⟨true, ["y"]⟩ ∧
    FileStore.read ⟨1⟩ (runEach twoStores (fun _ ↦ empty) false) = .ok [98] ∧
    FileStore.read ⟨1⟩
      (runEach (twoStores ++ [(false, .write ⟨1⟩ [122])]) (fun _ ↦ empty) false) = .ok [122] ∧
    FileStore.Refuses ⟨1⟩
      (runEach (twoStores ++ [(false, .close ⟨1⟩)]) (fun _ ↦ empty) false) := by
  refine ⟨by decide +kernel, fun h ↦ ?_, by decide +kernel, by decide +kernel, by decide +kernel,
    refuses_iff.2 (by decide +kernel)⟩
  exact absurd (refuses_iff.1 h) (by decide +kernel)

end MemoryStore

end ModuleBundler
