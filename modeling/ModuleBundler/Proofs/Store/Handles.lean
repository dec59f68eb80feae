import Mathlib.Data.List.Nodup
import ModuleBundler.Proofs.Store.History
import ModuleBundler.Proofs.Store.Reading

/-!
# Handles along a run

What an operation can do to the table of open files is said once: it gives out the next handle, or
takes back an open one, or leaves the open files as they are (`HandleTable.Moves`). All that is
known of handles along a run follows, whatever the operations do to the tree.

* Handles are given out in the order of their numbers (`MemoryStore.Sound.pairwise_issued`).
* The open files are those given out and not taken back, by number and one for one
  (`MemoryStore.Sound.isOpen_run`, `MemoryStore.Sound.size_run`).
* A handle leads to the same open file until it is taken back (`MemoryStore.Sound.find?_run`).

A handle that is not open is refused (`MemoryStore.refuses_iff`). Since its number does not come
back, this is so from the moment on when it was taken back (`MemoryStore.refuses_run_iff`).
-/

namespace ModuleBundler

namespace HandleTable

variable {τ : Type} {table table' : HandleTable τ} {handle : Handle} {file : OpenFile τ}
  {issued returned : Option Handle}

/-! ### What an operation does to the table -/

/-- What an operation can make of a table, with the handle that it gives out and the one that it
takes back. -/
inductive Moves (table : HandleTable τ) : Option Handle → Option Handle → HandleTable τ → Prop
  /-- The open files stay as they are. Numbers may have been used up. -/
  | keep {next : Nat} : table.next ≤ next → Moves table none none { table with next }
  /-- The next handle is given out. -/
  | give (file : OpenFile τ) : Moves table (some (table.insert file).1) none (table.insert file).2
  /-- An open handle is taken back. -/
  | take {handle : Handle} {closed : HandleTable τ} : table.close handle = .ok closed →
      Moves table none (some handle) closed

theorem get_eq_ok : table.get handle = .ok file ↔ table.find? handle = some file := by
  rw [get]
  rcases table.find? handle with - | file' <;> simp

theorem close_eq_ok : table.close handle = .ok table' ↔
    table.find? handle ≠ none ∧
      table' = { table with entries := table.entries.filter (·.1 != handle.id) } := by
  rw [HandleTable.close]
  rcases table.find? handle with - | file <;> simp [eq_comm]

theorem mem_entries_of_find? (h : table.find? handle = some file) :
    (handle.id, file) ∈ table.entries := by
  obtain ⟨front, rest, hentries, -⟩ := List.lookup_eq_some_iff.1 h
  exact hentries ▸ List.mem_append_right _ List.mem_cons_self

/-- An open handle has a number from before. -/
theorem Fresh.lt_of_find? (h : table.Fresh) (hopen : table.find? handle ≠ none) :
    handle.id < table.next := by
  obtain ⟨file, hfile⟩ := Option.ne_none_iff_exists'.1 hopen
  exact h (handle.id, file) (mem_entries_of_find? hfile)

/-- What is found after the entries of a number were taken out. -/
theorem lookup_filter_ne {α : Type} (entries : List (Nat × α)) (i j : Nat) :
    (entries.filter (·.1 != j)).lookup i = if i = j then none else entries.lookup i := by
  induction entries with
  | nil => simp
  | cons entry rest ih =>
    obtain ⟨k, a⟩ := entry
    by_cases hk : k = j
    · subst hk
      by_cases hi : i = k
      · simpa [hi] using ih
      · simpa [hi, List.lookup_cons, beq_eq_false_iff_ne.2 hi] using ih
    · by_cases hi : i = k
      · subst hi
        simp [hk]
      · simpa [hk, List.lookup_cons, beq_eq_false_iff_ne.2 hi] using ih

/-- The numbers of the open files are in order. -/
def Ordered (table : HandleTable τ) : Prop :=
  (table.entries.map Prod.fst).Pairwise (· < ·)

/-- Where the numbers are in order, an open handle has one entry. -/
theorem Ordered.length_filter (h : table.Ordered) (hopen : table.find? handle ≠ none) :
    (table.entries.filter (·.1 != handle.id)).length + 1 = table.entries.length := by
  obtain ⟨file, hfile⟩ := Option.ne_none_iff_exists'.1 hopen
  have hnodup : (table.entries.map Prod.fst).Nodup := h.imp fun hlt ↦ Nat.ne_of_lt hlt
  have hmem : handle.id ∈ table.entries.map Prod.fst :=
    List.mem_map.2 ⟨_, mem_entries_of_find? hfile, rfl⟩
  have hone : table.entries.countP (·.1 == handle.id) = 1 :=
    List.countP_map.symm.trans (List.count_eq_one_of_mem hnodup hmem)
  have hother : (fun entry : Nat × OpenFile τ ↦ decide ¬(entry.1 == handle.id) = true) =
      (·.1 != handle.id) := by
    funext entry
    rcases h : entry.1 == handle.id <;> simp [bne, h]
  rw [List.length_eq_countP_add_countP (·.1 == handle.id) (l := table.entries), hone, hother,
    List.countP_eq_length_filter, Nat.add_comm]

namespace Moves

theorem le_next (h : table.Moves issued returned table') : table.next ≤ table'.next := by
  cases h with
  | keep hle => exact hle
  | give file => exact Nat.le_succ _
  | take hclose => exact (close_eq_ok.1 hclose).2 ▸ Nat.le_refl _

/-- The handle that is given out has the next number. -/
theorem id_of_issued (h : table.Moves (some handle) returned table') :
    handle.id = table.next ∧ table.next < table'.next := by
  cases h with
  | give file => exact ⟨rfl, Nat.lt_succ_self _⟩

/-- Nothing is given out and taken back in one step, so the rest stays as it is. -/
theorem entries_eq (h : table.Moves none none table') : table'.entries = table.entries := by
  cases h with
  | keep => rfl

/-- What a step gives out is open after it, and leads to the file that it was given out for. -/
theorem find?_of_issued (h : table.Moves (some handle) returned table') (hfresh : table.Fresh) :
    table'.find? handle ≠ none := by
  cases h with
  | give file => exact hfresh.find?_insert file ▸ Option.some_ne_none file

/-- What a step takes back was open before it, and is not open after it. -/
theorem find?_of_returned (h : table.Moves issued (some handle) table') :
    table.find? handle ≠ none ∧ table'.find? handle = none := by
  cases h with
  | take hclose =>
    obtain ⟨hopen, rfl⟩ := close_eq_ok.1 hclose
    refine ⟨hopen, ?_⟩
    rw [find?, lookup_filter_ne, if_pos rfl]

/-- A handle that is neither given out nor taken back leads to what it led to. -/
theorem find?_eq (h : table.Moves issued returned table') (hissued : issued ≠ some handle)
    (hreturned : returned ≠ some handle) : table'.find? handle = table.find? handle := by
  cases h with
  | keep => rfl
  | give file =>
    have hne : handle.id ≠ table.next := fun heq ↦
      hissued (congrArg (fun id ↦ some (Handle.mk id)) heq.symm)
    rw [find?, find?, insert, List.lookup_append]
    simp [List.lookup_cons, beq_eq_false_iff_ne.2 hne]
  | @take other closed hclose =>
    have hne : handle.id ≠ other.id := fun heq ↦
      hreturned (congrArg (fun id ↦ some (Handle.mk id)) heq.symm)
    obtain ⟨-, rfl⟩ := close_eq_ok.1 hclose
    rw [find?, lookup_filter_ne, if_neg hne, find?]

theorem ordered (h : table.Moves issued returned table') (hfresh : table.Fresh)
    (hordered : table.Ordered) : table'.Ordered := by
  cases h with
  | keep => exact hordered
  | give file =>
    rw [Ordered, insert, List.map_append]
    refine List.pairwise_append.2
      ⟨hordered, List.pairwise_singleton _ _, fun id hid next hnext ↦ ?_⟩
    obtain ⟨entry, hentry, rfl⟩ := List.mem_map.1 hid
    obtain rfl := List.mem_singleton.1 hnext
    exact hfresh entry hentry
  | take hclose =>
    obtain ⟨-, rfl⟩ := close_eq_ok.1 hclose
    exact hordered.sublist (List.filter_sublist.map _)

/-- One more is open for a handle given out, and one less for a handle taken back. -/
theorem size_add (h : table.Moves issued returned table') (hordered : table.Ordered) :
    table'.size + returned.toList.length = table.size + issued.toList.length := by
  cases h with
  | keep => rfl
  | give file => simp [size, insert]
  | @take handle closed hclose =>
    obtain ⟨hopen, rfl⟩ := close_eq_ok.1 hclose
    exact hordered.length_filter hopen

end Moves

end HandleTable

namespace MemoryStore

open Operation (issued? returned? history run)

variable {s s' : MemoryStore} {path : Path} {bytes : Bytes} {handle : Handle}
  {file : OpenFile Nat} {operation : MemoryStore → Except Error MemoryStore}

/-! ### What operations do to the table -/

theorem handles_change (h : ∀ {s' : MemoryStore}, operation s = .ok s' → s'.handles = s.handles) :
    (FileStore.change operation s).2.handles = s.handles :=
  FileStore.snd_change (I := fun s' : MemoryStore ↦ s'.handles = s.handles) h rfl

theorem handles_create (h : create path s = .ok s') : s'.handles = s.handles := by
  obtain ⟨parent, name, -, ⟨-, rfl⟩ | ⟨id, -, -, rfl⟩⟩ := create_eq_ok h <;> rfl

theorem handles_remove (h : remove path s = .ok s') : s'.handles = s.handles := by
  obtain ⟨parent, name, id, -, -, -, rfl⟩ := remove_eq_ok h
  rfl

theorem handles_makeDirectory (h : makeDirectory path s = .ok s') : s'.handles = s.handles := by
  obtain ⟨parent, name, -, -, rfl⟩ := makeDirectory_eq_ok h
  rfl

theorem handles_write (h : write handle bytes s = .ok s') : s'.handles = s.handles := by
  obtain ⟨file, -, -, rfl⟩ := write_eq_ok h
  rfl

theorem handles_descend (above : Path) (segments : List String) :
    (FileStore.descend above segments s).2.handles = s.handles := by
  induction segments generalizing above s with
  | nil => rfl
  | cons segment rest ih =>
    rw [FileStore.descend]
    split
    · exact ih _
    · split
      case h_1 hmake => exact (ih _).trans (handles_makeDirectory hmake)
      case h_2 => rfl

theorem handles_makeDirectories (path : Path) :
    (FileStore.makeDirectories path s).2.handles = s.handles := by
  rw [FileStore.makeDirectories]
  split
  · exact handles_descend _ _
  · rfl

/-- Reading a file uses up a number. -/
theorem Sound.handles_load (h : s.Sound) (path : Path) :
    ∃ next, s.handles.next ≤ next ∧
      (FileStore.load path s).2.handles = { s.handles with next } := by
  obtain ⟨n, hload⟩ := h.snd_load path
  exact ⟨s.handles.next + n, Nat.le_add_right _ _, hload ▸ rfl⟩

/-- So does storing a file. -/
theorem Sound.handles_save (h : s.Sound) (path : Path) (bytes : Bytes) :
    ∃ next, s.handles.next ≤ next ∧
      (FileStore.save path bytes s).2.handles = { s.handles with next } := by
  rcases hcreate : FileStore.create path s with e | created
  · rw [FileStore.save, hcreate]
    exact ⟨_, Nat.le_refl _, rfl⟩
  · have hcreated : created.handles = s.handles := handles_create hcreate
    rcases hopen : FileStore.openFile path created with e | ⟨handle, opened⟩
    · rw [FileStore.save, hcreate]
      simp only [hopen]
      exact ⟨_, Nat.le_refl _, hcreated⟩
    · obtain ⟨id, -, -, hhandle, hopened⟩ := openFile_eq_ok hopen
      have hwritten : (FileStore.change (FileStore.write handle bytes) opened).2.handles =
          (s.handles.insert ⟨id, created.pathOf id⟩).2 := by
        have hwrite : (FileStore.change (FileStore.write handle bytes) opened).2.handles =
            opened.handles := handles_change handles_write
        rw [hwrite, hopened, hcreated]
      have hclose : FileStore.close handle
          (FileStore.change (FileStore.write handle bytes) opened).2 =
            .ok { (FileStore.change (FileStore.write handle bytes) opened).2 with
              handles := { s.handles with next := s.handles.next + 1 } } := by
        refine bind_eq_ok.2 ⟨_, ?_, rfl⟩
        rw [hwritten, hhandle, hcreated]
        exact h.fresh.close_insert _
      rw [FileStore.save, hcreate]
      simp only [hopen, hclose]
      exact ⟨_, Nat.le_succ _, rfl⟩

namespace Sound

theorem apply (h : s.Sound) (operation : Operation) : Sound (operation.apply s) :=
  keeps_sound.apply h operation fun _ _ ↦ trivial

/-- **What an operation does to the table** is what its answer says. -/
theorem moves (h : s.Sound) (operation : Operation) :
    s.handles.Moves (operation.issued? s) (operation.returned? s) (operation.apply s).handles := by
  have hkeep : ∀ {s' : MemoryStore}, s'.handles = s.handles →
      s.handles.Moves none none s'.handles := fun heq ↦ heq ▸ .keep (Nat.le_refl _)
  cases operation with
  | openFile path =>
    rw [issued?, Operation.apply, FileStore.attempt]
    rcases hopen : FileStore.openFile path s with e | ⟨handle, opened⟩
    · exact hkeep rfl
    · obtain ⟨id, -, -, rfl, rfl⟩ := openFile_eq_ok hopen
      exact .give _
  | create path => exact hkeep (handles_change handles_create)
  | remove path => exact hkeep (handles_change handles_remove)
  | makeDirectory path => exact hkeep (handles_change handles_makeDirectory)
  | write handle bytes => exact hkeep (handles_change handles_write)
  | close handle =>
    rw [returned?, Operation.apply, FileStore.change]
    rcases hclose : FileStore.close handle s with e | closed
    · exact hkeep rfl
    · obtain ⟨handles, htable, rfl⟩ := close_eq_ok hclose
      exact .take htable
  | load path =>
    obtain ⟨next, hle, hload⟩ := h.handles_load path
    exact (show (Operation.apply (.load path) s).handles = _ from hload) ▸ .keep hle
  | save path bytes =>
    obtain ⟨next, hle, hsave⟩ := h.handles_save path bytes
    exact (show (Operation.apply (.save path bytes) s).handles = _ from hsave) ▸ .keep hle
  | makeDirectories path => exact hkeep (handles_makeDirectories path)

/-! ### Along a run -/

/-- Handles that a run gives out have numbers that were not used before. -/
theorem le_of_mem_issued (h : s.Sound) {operations : List Operation}
    (hissued : handle ∈ history issued? operations s) : s.handles.next ≤ handle.id := by
  induction operations generalizing s with
  | nil => cases hissued
  | cons operation rest ih =>
    have hmoves := h.moves operation
    rcases Operation.mem_history_cons.1 hissued with hnow | hlater
    · rw [hnow] at hmoves
      exact Nat.le_of_eq hmoves.id_of_issued.1.symm
    · exact Nat.le_trans hmoves.le_next (ih (h.apply operation) hlater)

/-- **No handle is given out twice**, and each has a greater number than those before. -/
theorem pairwise_issued (h : s.Sound) (operations : List Operation) :
    (history issued? operations s).Pairwise fun earlier later ↦ earlier.id < later.id := by
  induction operations generalizing s with
  | nil => exact .nil
  | cons operation rest ih =>
    have hmoves := h.moves operation
    rw [history]
    refine List.pairwise_append.2
      ⟨?_, ih (h.apply operation), fun earlier hearlier later hlater ↦ ?_⟩
    · rcases operation.issued? s with - | handle
      · exact .nil
      · exact List.pairwise_singleton _ _
    · rw [Option.mem_toList.1 hearlier] at hmoves
      have hle := (h.apply operation).le_of_mem_issued hlater
      have := hmoves.id_of_issued
      omega

/-- **Which handles are open after a run**: those that were open or were given out, and were not
taken back. -/
theorem isOpen_run (h : s.Sound) (operations : List Operation) :
    (run operations s).handles.find? handle ≠ none ↔
      (s.handles.find? handle ≠ none ∨ handle ∈ history issued? operations s) ∧
        handle ∉ history returned? operations s := by
  induction operations generalizing s with
  | nil => simp [run, history]
  | cons operation rest ih =>
    have hmoves := h.moves operation
    have hrun : run (operation :: rest) s = run rest (operation.apply s) := rfl
    rw [hrun, ih (h.apply operation), Operation.mem_history_cons, Operation.mem_history_cons]
    by_cases hreturned : operation.returned? s = some handle
    · -- the number of a handle taken back is not given out again
      rw [hreturned] at hmoves
      have hgone : handle ∉ history issued? rest (operation.apply s) := fun hlater ↦ by
        have hle := (h.apply operation).le_of_mem_issued hlater
        have hlt := h.fresh.lt_of_find? hmoves.find?_of_returned.1
        have := hmoves.le_next
        omega
      simp [hmoves.find?_of_returned.2, hgone, hreturned]
    · by_cases hissued : operation.issued? s = some handle
      · rw [hissued] at hmoves
        simp [hmoves.find?_of_issued h.fresh, hissued, hreturned]
      · simp [hmoves.find?_eq hissued hreturned, hissued, hreturned]

/-- **A handle leads to the same open file** until it is taken back. -/
theorem find?_run (h : s.Sound) {operations : List Operation}
    (hfile : s.handles.find? handle = some file)
    (hreturned : handle ∉ history returned? operations s) :
    (run operations s).handles.find? handle = some file := by
  induction operations generalizing s with
  | nil => exact hfile
  | cons operation rest ih =>
    have hmoves := h.moves operation
    rw [Operation.mem_history_cons, not_or] at hreturned
    refine ih (h.apply operation) ?_ hreturned.2
    have hold : operation.issued? s ≠ some handle := fun hissued ↦ by
      rw [hissued] at hmoves
      have hlt := h.fresh.lt_of_find? (hfile ▸ Option.some_ne_none file)
      have := hmoves.id_of_issued
      omega
    rw [hmoves.find?_eq hold hreturned.1, hfile]

/-- **How many handles are open after a run.** -/
theorem size_run (h : s.Sound) (hordered : s.handles.Ordered) (operations : List Operation) :
    (run operations s).handles.size + (history returned? operations s).length =
      s.handles.size + (history issued? operations s).length := by
  induction operations generalizing s with
  | nil => rfl
  | cons operation rest ih =>
    have hmoves := h.moves operation
    have hrest := ih (h.apply operation) (hmoves.ordered h.fresh hordered)
    have hstep := hmoves.size_add hordered
    simp only [history, List.length_append]
    show (run rest (operation.apply s)).handles.size + _ = _
    omega

end Sound

/-! ### Handles that are refused -/

/-- An open handle has a path. -/
theorem realPath_of_find? (h : s.handles.find? handle = some file) :
    FileStore.realPath handle s = .ok file.realPath :=
  bind_eq_ok.2 ⟨file, HandleTable.get_eq_ok.2 h, rfl⟩

/-- **A store refuses the handles that are not open**, and no others. -/
theorem refuses_iff : FileStore.Refuses handle s ↔ s.handles.find? handle = none := by
  constructor
  · intro h
    rcases hfind : s.handles.find? handle with - | file
    · rfl
    · obtain ⟨cause, hcause⟩ := h.realPath
      rw [realPath_of_find? hfind] at hcause
      cases hcause
  · intro h
    have hget : s.handles.get handle = .error (.io (.notOpen handle.id)) := by
      rw [HandleTable.get, h]
    have hclose : s.handles.close handle = .error (.io (.notOpen handle.id)) := by
      rw [HandleTable.close, h]
    have hpath : FileStore.realPath handle s = .error (.io (.notOpen handle.id)) :=
      bind_eq_error.2 (Or.inl hget)
    exact {
      read := ⟨_, bind_eq_error.2 (Or.inl hget)⟩
      write := fun _ ↦ ⟨_, bind_eq_error.2 (Or.inl hget)⟩
      close := ⟨_, bind_eq_error.2 (Or.inl hclose)⟩
      realPath := ⟨_, hpath⟩
      displayPath := ⟨_, by rw [FileStore.displayPath, hpath]; rfl⟩ }

/-- A store that was empty refuses a handle unless it gave it out and did not take it back. -/
theorem refuses_run_iff (operations : List Operation) :
    FileStore.Refuses handle (run operations empty) ↔
      (handle ∈ history issued? operations empty →
        handle ∈ history returned? operations empty) := by
  have hempty : empty.handles.find? handle = none := rfl
  have hopen : (run operations empty).handles.find? handle ≠ none ↔ _ :=
    sound_empty.isOpen_run operations
  rw [hempty] at hopen
  rw [refuses_iff]
  tauto

end MemoryStore

end ModuleBundler
