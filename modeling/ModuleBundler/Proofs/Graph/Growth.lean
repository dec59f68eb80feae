import Mathlib.Data.List.Basic
import ModuleBundler.Graph.Basic

/-!
# Growing a graph

A graph grows by modules behind the others and by edges of modules that it has. What either leaves
as it was is said here once: a new module leaves the places of the others, and an edge of the module
at one place leaves all paths, and all modules at other places.

A module keeps what it imports in the order of the first occurrences: adding what a list names, one
after the other, comes to the list without its repeats (`addNew_eraseDups`).
-/

namespace ModuleBundler

/-! ### Lists -/

theorem mem_addNew {α : Type} [DecidableEq α] {a b : α} {l : List α} :
    b ∈ addNew a l ↔ b ∈ l ∨ b = a := by
  rw [addNew]
  split
  · exact ⟨Or.inl, fun h ↦ h.elim id fun hba ↦ hba ▸ ‹_›⟩
  · simp

/-- Adding an element to a list without repeats is removing the repeats from the longer list. -/
theorem addNew_eraseDups {α : Type} [DecidableEq α] (a : α) (l : List α) :
    addNew a l.eraseDups = (l ++ [a]).eraseDups := by
  rw [List.eraseDups_append]
  by_cases h : a ∈ l
  · have hremoved : [a].removeAll l = [] := by simp [List.removeAll, h]
    rw [addNew, if_pos (List.mem_eraseDups.2 h), hremoved, List.eraseDups_nil, List.append_nil]
  · have hkept : [a].removeAll l = [a] := by simp [List.removeAll, h]
    rw [addNew, if_neg (mt List.mem_eraseDups.1 h), hkept]
    rfl

/-- Changing an element of a list changes what the list is mapped to at the same place. -/
theorem map_modify {α β : Type} (f : α → β) (g : α → α) (h : β → β) (hfg : ∀ a, f (g a) = h (f a))
    (i : Nat) (l : List α) : (l.modify i g).map f = (l.map f).modify i h := by
  refine List.ext_getElem? fun j ↦ ?_
  rw [List.getElem?_map, List.getElem?_modify, List.getElem?_modify, List.getElem?_map]
  rcases l[j]? with - | a
  · rfl
  · by_cases hij : i = j
    · simp [hij, hfg]
    · simp [hij]

namespace Graph

/-! ### Paths -/

theorem length_paths (g : Graph) : g.paths.length = g.size :=
  List.length_map _

theorem paths_insert (g : Graph) (m : Module) : (g.insert m).paths = g.paths ++ [m.path] := by
  simp [insert, paths]

/-- A graph that has grown has a module where it stood. -/
theorem getElem?_paths_of_insert {g g' : Graph} {m : Module} (h : (g.insert m).paths <+: g'.paths) :
    g'.paths[g.size]? = some m.path := by
  rw [paths_insert] at h
  have hget := List.prefix_iff_getElem?.1 h g.paths.length (by simp)
  rwa [List.getElem_concat_length rfl, g.length_paths] at hget

@[simp]
theorem paths_addDependency (g : Graph) (importer imported : Nat) :
    (g.addDependency importer imported).paths = g.paths :=
  (map_modify Module.path (·.addDependency imported) id (fun _ ↦ rfl) importer g.modules).trans
    (List.modify_id _ _)

@[simp]
theorem paths_addExternal (g : Graph) (importer : Nat) (request : String) :
    (g.addExternal importer request).paths = g.paths :=
  (map_modify Module.path (·.addExternal request) id (fun _ ↦ rfl) importer g.modules).trans
    (List.modify_id _ _)

theorem indexOf?_eq_none {g : Graph} {path : Path} : g.indexOf? path = none ↔ path ∉ g.paths :=
  List.idxOf?_eq_none_iff

theorem indexOf?_eq_some {g : Graph} {path : Path} {i : Nat} :
    g.indexOf? path = some i ↔ path ∈ g.paths ∧ g.paths.idxOf path = i := by
  rw [indexOf?, List.idxOf_eq_getD_idxOf?]
  constructor
  · intro h
    exact ⟨List.isSome_idxOf?.1 (by rw [h]; rfl), by rw [h]; rfl⟩
  · rintro ⟨hmem, rfl⟩
    obtain ⟨i, hi⟩ := Option.isSome_iff_exists.1 (List.isSome_idxOf?.2 hmem)
    rw [hi, Option.getD_some]

theorem lt_size_of_indexOf? {g : Graph} {path : Path} {i : Nat} (h : g.indexOf? path = some i) :
    i < g.size := by
  obtain ⟨hmem, rfl⟩ := indexOf?_eq_some.1 h
  exact g.length_paths ▸ List.idxOf_lt_length_of_mem hmem

/-! ### Places -/

@[simp]
theorem size_insert (g : Graph) (m : Module) : (g.insert m).size = g.size + 1 := by
  simp [insert, size]

@[simp]
theorem size_addDependency (g : Graph) (importer imported : Nat) :
    (g.addDependency importer imported).size = g.size := by
  simp [addDependency, size]

@[simp]
theorem size_addExternal (g : Graph) (importer : Nat) (request : String) :
    (g.addExternal importer request).size = g.size := by
  simp [addExternal, size]

/-- A new module leaves the others in their places. -/
theorem getElem?_insert_of_lt {g : Graph} {i : Nat} (hi : i < g.size) (m : Module) :
    (g.insert m).modules[i]? = g.modules[i]? :=
  List.getElem?_append_left hi

theorem getElem?_insert_size (g : Graph) (m : Module) :
    (g.insert m).modules[g.size]? = some m := by
  rw [insert, size, List.getElem?_concat_length]

theorem getElem?_addDependency_of_ne {g : Graph} {importer i : Nat} (h : i ≠ importer)
    (imported : Nat) : (g.addDependency importer imported).modules[i]? = g.modules[i]? :=
  List.getElem?_modify_ne _ _ h.symm

theorem getElem?_addExternal_of_ne {g : Graph} {importer i : Nat} (h : i ≠ importer)
    (request : String) : (g.addExternal importer request).modules[i]? = g.modules[i]? :=
  List.getElem?_modify_ne _ _ h.symm

theorem getElem?_addDependency {g : Graph} {importer : Nat} {m : Module}
    (h : g.modules[importer]? = some m) (imported : Nat) :
    (g.addDependency importer imported).modules[importer]? = some (m.addDependency imported) := by
  rw [addDependency, List.getElem?_modify_eq, h]
  rfl

theorem getElem?_addExternal {g : Graph} {importer : Nat} {m : Module}
    (h : g.modules[importer]? = some m) (request : String) :
    (g.addExternal importer request).modules[importer]? = some (m.addExternal request) := by
  rw [addExternal, List.getElem?_modify_eq, h]
  rfl

end Graph

end ModuleBundler
