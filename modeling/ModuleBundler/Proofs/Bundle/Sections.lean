import Mathlib.Algebra.Order.BigOperators.Group.List
import Mathlib.Algebra.Order.Ring.Nat
import Mathlib.Data.List.SplitLengths
import ModuleBundler.Graph.Emit
import ModuleBundler.Proofs.Bundle.Agreement
import ModuleBundler.Proofs.Graph.Listed
import ModuleBundler.Syntax.Program

/-!
# The sections of a bundle

The text of a bundle has no marks that say where a section ends: a file may have lines in it that
look like the head of a section, and bytes that are no text. What cuts it is a sum. A section is as
long as the outline of its module says, which is the path, the size of the file and its last byte
(`Module.length_section`), and cutting the bundle by these lengths gives its sections back
(`Graph.splitLengths_emit`).

Every section ends a line, so that whatever stands in front of a section does
(`Graph.getLast?_take_offset`). And the sections are those of the modules that the order lists, each
once, so that two orders differ in nothing but the order of the sections.
-/

namespace ModuleBundler

/-! ### Single sections -/

/-- What has to be known of a module to tell how long its section is. -/
structure Outline where
  /-- The written path of the file. -/
  path : String
  /-- The size of the file. -/
  size : Nat
  /-- The last byte of the file, if it has one. -/
  last : Option UInt8
  deriving DecidableEq, Repr

/-- How long a section is. -/
def Outline.length (o : Outline) : Nat :=
  (Utf8.encode ("// " ++ o.path ++ "\n")).length + o.size + if o.last = some lineEnd then 0 else 1

/-- The outline of a module. -/
def Module.outline (m : Module) : Outline :=
  ⟨m.path.render, m.content.length, m.content.getLast?⟩

theorem length_missingLineEnd (content : Bytes) :
    (missingLineEnd content).length = if content.getLast? = some lineEnd then 0 else 1 := by
  rw [missingLineEnd]
  split <;> rfl

/-- **A section is as long as the outline of its module says.** -/
theorem Module.length_section (m : Module) : m.section.length = m.outline.length := by
  rw [Module.section, List.length_append, List.length_append, length_missingLineEnd]
  rfl

/-- **A section ends a line**, also where the file has nothing in it. -/
theorem Module.getLast?_section (m : Module) : m.section.getLast? = some lineEnd := by
  rw [Module.section, missingLineEnd, List.getLast?_append]
  split
  case isTrue h => rw [List.getLast?_append, h]; rfl
  case isFalse => rfl

/-! ### Sections in a row -/

theorem splitLengths_flatten {α : Type} (parts : List (List α)) :
    (parts.map List.length).splitLengths parts.flatten = parts := by
  induction parts with
  | nil => rfl
  | cons part parts ih =>
    rw [List.map_cons, List.splitLengths_cons, List.flatten_cons, List.take_left, List.drop_left,
      ih]

/-- Parts that end alike, in a row, end like them. -/
theorem getLast?_flatten_of_forall {α : Type} {a : α} {parts : List (List α)}
    (h : ∀ part ∈ parts, part.getLast? = some a) :
    parts.flatten = [] ∨ parts.flatten.getLast? = some a := by
  rcases parts.eq_nil_or_concat' with rfl | ⟨front, last, rfl⟩
  · exact Or.inl rfl
  · refine Or.inr ?_
    rw [List.flatten_append, List.flatten_singleton, List.getLast?_append,
      h last (List.mem_append_right _ (List.mem_singleton_self last)), Option.some_or]

namespace Graph

variable {g : Graph} {post : List Nat} {order : Order} {k : Nat}

/-- How long the sections are, by the outlines of the modules. -/
def sectionLengths (g : Graph) (order : Order) : List Nat :=
  (g.listed order).map fun m ↦ m.outline.length

/-- Where the section at a position begins. -/
def offset (g : Graph) (order : Order) (k : Nat) : Nat :=
  ((g.sectionLengths order).take k).sum

/-- The bundle is the sections of the modules in a row. -/
theorem emit_eq_flatten (g : Graph) (order : Order) :
    g.emit order = ((g.listed order).map Module.section).flatten := by
  rw [emit, listed]
  induction g.order order with
  | nil => rfl
  | cons i places ih =>
    rw [List.flatMap_cons, ih]
    rcases hi : g.modules[i]? with - | m
    · rw [List.filterMap_cons_none hi]
      rfl
    · rw [List.filterMap_cons_some hi]
      rfl

theorem sectionLengths_eq (g : Graph) (order : Order) :
    g.sectionLengths order = ((g.listed order).map Module.section).map List.length := by
  rw [List.map_map, sectionLengths]
  exact List.map_congr_left fun m _ ↦ m.length_section.symm

/-- **The lengths cut the bundle into its sections.** -/
theorem splitLengths_emit (g : Graph) (order : Order) :
    (g.sectionLengths order).splitLengths (g.emit order) =
      (g.listed order).map Module.section := by
  rw [sectionLengths_eq, emit_eq_flatten, splitLengths_flatten]

theorem sum_sectionLengths (g : Graph) (order : Order) :
    (g.sectionLengths order).sum = (g.emit order).length := by
  rw [sectionLengths_eq, emit_eq_flatten, List.length_flatten]

/-- **What stands in front of a section ends a line**, or there is nothing. -/
theorem getLast?_take_offset (g : Graph) (order : Order) (k : Nat) :
    (g.emit order).take (g.offset order k) = [] ∨
      ((g.emit order).take (g.offset order k)).getLast? = some lineEnd := by
  rw [offset, sectionLengths_eq, emit_eq_flatten, List.take_sum_flatten]
  refine getLast?_flatten_of_forall fun part hpart ↦ ?_
  obtain ⟨m, -, rfl⟩ := List.mem_map.1 (List.mem_of_mem_take hpart)
  exact m.getLast?_section

theorem offset_mono (g : Graph) (order : Order) : Monotone (g.offset order) :=
  List.monotone_sum_take _

/-- **Behind the sections of what it imports**, a section begins, unless that leads back to it. -/
theorem Explores.exists_offset_le (h : g.Explores 0 [0] g.size post) {u v : Nat}
    (huv : g.DependsOn u v) (hback : ¬ Relation.TransGen g.DependsOn v u) :
    ∃ j k, (g.listed .dependency)[j]? = g.modules[v]? ∧
      (g.listed .dependency)[k]? = g.modules[u]? ∧
      g.offset .dependency (j + 1) ≤ g.offset .dependency k := by
  obtain ⟨j, k, hlt, hj, hk⟩ := (h.standsBefore huv hback).exists_positions
  exact ⟨j, k, h.getElem?_listed hj, h.getElem?_listed hk, g.offset_mono .dependency hlt⟩

end Graph

/-! ### Bundles -/

variable {σ : Type} [FileStore σ]

/-- **A bundle falls apart into one section for each module.** In either order, the modules that are
listed are those of the graph, each once; and cutting the bundle by lengths that the paths, the
sizes and the last bytes of the files tell gives for each of them the line that names it, the bytes
of the file, and one line end where these do not end with one. Nothing is left behind the last
section, and every section starts a line.

Two orders give the same sections, and bundles of the same length. In the order of dependencies a
section begins behind the end of the sections of the modules that its own imports, except for those
that lead back to it. -/
theorem collect_sections [Engine] (options : BundleOptions σ) (depth : Nat) (entry : Path)
    (s s' : σ) (g : Graph) (h : collect options depth entry s = some (.ok g, s')) :
    (∀ order : Order,
      (g.listed order).Perm g.modules ∧
      (g.sectionLengths order).splitLengths (g.emit order) = (g.listed order).map (fun m ↦
        Utf8.encode ("// " ++ m.path.render ++ "\n") ++ m.content ++
          if m.content.getLast? = some lineEnd then [] else [lineEnd]) ∧
      (g.sectionLengths order).sum = (g.emit order).length ∧
      ∀ k, (g.emit order).take (g.offset order k) = [] ∨
        ((g.emit order).take (g.offset order k)).getLast? = some lineEnd) ∧
    (∀ order order' : Order,
      ((g.sectionLengths order).splitLengths (g.emit order)).Perm
        ((g.sectionLengths order').splitLengths (g.emit order')) ∧
      (g.emit order).length = (g.emit order').length) ∧
    ∀ u v, g.DependsOn u v → ¬ Relation.TransGen g.DependsOn v u →
      ∃ j k m m', g.modules[v]? = some m ∧ (g.listed .dependency)[j]? = some m ∧
        g.modules[u]? = some m' ∧ (g.listed .dependency)[k]? = some m' ∧
        g.offset .dependency j + m.outline.length ≤ g.offset .dependency k := by
  obtain ⟨post, hexplores⟩ := exists_explores_zero_of_collect h
  have hsections (order order' : Order) : ((g.listed order).map Module.section).Perm
      ((g.listed order').map Module.section) :=
    ((hexplores.listed_perm order).trans (hexplores.listed_perm order').symm).map _
  refine ⟨fun order ↦ ⟨hexplores.listed_perm order, g.splitLengths_emit order,
    g.sum_sectionLengths order, g.getLast?_take_offset order⟩, fun order order' ↦ ?_,
    fun u v huv hback ↦ ?_⟩
  · rw [g.splitLengths_emit, g.splitLengths_emit, g.emit_eq_flatten, g.emit_eq_flatten]
    exact ⟨hsections order order', (hsections order order').flatten.length_eq⟩
  · obtain ⟨j, k, hj, hk, hle⟩ := hexplores.exists_offset_le huv hback
    have hv : v < g.modules.length := hexplores.lt_of_dependsOn (Nat.zero_le u) huv.lt_size huv
    have hu : u < g.modules.length := huv.lt_size
    have hmv : g.modules[v]? = some g.modules[v] := List.getElem?_eq_getElem hv
    have hmu : g.modules[u]? = some g.modules[u] := List.getElem?_eq_getElem hu
    have hend : g.offset .dependency (j + 1) =
        g.offset .dependency j + g.modules[v].outline.length := by
      have hlength : (g.sectionLengths .dependency)[j]? = some g.modules[v].outline.length := by
        rw [Graph.sectionLengths, List.getElem?_map, hj, hmv]
        rfl
      rw [Graph.offset, Graph.offset, List.take_add_one, hlength, List.sum_append]
      simp
    exact ⟨j, k, g.modules[v], g.modules[u], hmv, hj.trans hmv, hmu, hk.trans hmu, hend ▸ hle⟩

/-- The bundle of the sample store: two sections, of files that end no line. -/
theorem collect_sections_sampleStore :
    ∃ g s', collect sampleOptions 2 ⟨true, ["a.ts"]⟩ MemoryStore.sampleStore = some (.ok g, s') ∧
      (g.listed .dependency).Perm g.modules ∧
      (g.emit .discovery).length = (g.emit .dependency).length := by
  obtain ⟨g, s', hcollect, -⟩ := exists_collect_sampleStore
  obtain ⟨hcut, horders, -⟩ := collect_sections _ _ _ _ _ g hcollect
  exact ⟨g, s', hcollect, (hcut .dependency).1, (horders .discovery .dependency).2⟩

end ModuleBundler
